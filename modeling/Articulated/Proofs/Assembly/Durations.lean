import Articulated.Proofs.Number.Exact
import Articulated.Proofs.Assembly.Coverage
import Articulated.Proofs.Assembly.Kinematics
import Articulated.Proofs.Factor.Steps
import Articulated.Proofs.Graph.Reordering

/-!
# Steps of variable and of known length

A trajectory over phases of one robot and a trajectory of as many steps of a known length are put
together differently. They have the same slices, and their steps differ only in where they take
their length from. So where all phases have the duration `dt`, the two graphs say the same.

* `Relation.SameStep`: relations are equal, or steps of one duration and of a known length.
* `Factor.AgreesAt`: factors that cannot be told apart at an assignment.
* `Factor.SameStep.agreesAt`: corresponding factors agree where the durations are `dt`.
* `Builder.collocationWith_sameStep`, `Builder.tiling_sameStep`, `Builder.multiPhase_sameStep`: the
  factors of steps and of trajectories correspond.
* `Builder.multiPhase_fixedSteps`: the two trajectories.
-/

namespace Articulated

/-! ## 1. Corresponding factors -/

section Correspondence

variable {α : Type}

/-- The relations are equal, or differ in the step alone: one takes a variable of some kind for
its length, the other one a number. -/
inductive Relation.SameStep (p : Key → Prop) (dt : α) : Relation α → Relation α → Prop where
  | refl (r : Relation α) : SameStep p dt r r
  | collocation {x₀ x₁ r₀ r₁ k : Key} {scheme : CollocationScheme} (hk : p k) :
      SameStep p dt (.collocation x₀ x₁ r₀ r₁ (.phase k) scheme)
        (.collocation x₀ x₁ r₀ r₁ (.fixed dt) scheme)

/-- The factors have corresponding relations and the same noise. -/
structure Factor.SameStep (p : Key → Prop) (dt : α) (f f' : Factor α) : Prop where
  relation : f.relation.SameStep p dt f'.relation
  noise_eq : f.noise = f'.noise

variable {p : Key → Prop} {dt : α} {f f' : Factor α}

theorem Factor.SameStep.refl (f : Factor α) : f.SameStep p dt f := ⟨.refl _, rfl⟩

/-- A factor has the variables of the corresponding one, and possibly the length of its step. -/
theorem Factor.SameStep.keys_eq (h : f.SameStep p dt f') :
    ∃ ks, f.keys = f'.keys ++ ks ∧ ∀ k ∈ ks, p k := by
  obtain ⟨relation, noise⟩ := f
  obtain ⟨relation', noise'⟩ := f'
  cases h.relation with
  | refl => exact ⟨[], (List.append_nil _).symm, nofun⟩
  | @collocation x₀ x₁ r₀ r₁ k scheme hk =>
    refine ⟨[k], ?_, List.forall_mem_singleton.2 hk⟩
    cases scheme <;> rfl

end Correspondence

/-! ## 2. Agreement at an assignment -/

section Agreement

variable {α : Type} [Scalar α]

/-- The durations of the phases are all the same. -/
def Values.HasDurations (vs : Values α) (numPhases : Nat) (dt : α) : Prop :=
  ∀ phase < numPhases, vs.scalarOf (.phaseDuration phase) = .ok dt

/-- The block that the Jacobian of the factor has for a variable, the first one of several. -/
def Factor.block? [Runtime α] (f : Factor α) (vs : Values α) (k : Key) :
    Except (Fault α) (Option (Block α)) := do
  return (f.keys.zip (← f.blocks vs)).lookup k

/-- The factors have the same noise and, at an assignment, the same residual and the same blocks
for the variables that they share. -/
structure Factor.AgreesAt (vs : Values α) (f f' : Factor α) : Prop where
  noise_eq : f.noise = f'.noise
  residual_eq : f.residual vs = f'.residual vs
  block_eq : ∀ [Runtime α], ∀ k ∈ f.keys, k ∈ f'.keys → f.block? vs k = f'.block? vs k

theorem Factor.AgreesAt.refl (vs : Values α) (f : Factor α) : f.AgreesAt vs f :=
  ⟨rfl, rfl, fun _ _ _ => rfl⟩

theorem Factor.AgreesAt.cost_eq {vs : Values α} {f f' : Factor α} (h : f.AgreesAt vs f') :
    f.cost vs = f'.cost vs := by
  unfold cost whitened
  rw [h.noise_eq, h.residual_eq]

variable {p : Key → Prop} {dt : α} {vs : Values α}

theorem lookup_append_of_mem {β : Type} {q : Key} {l : List (Key × β)} (l' : List (Key × β))
    (hq : q ∈ l.map Prod.fst) : (l ++ l').lookup q = l.lookup q := by
  obtain ⟨e, he, rfl⟩ := List.mem_map.1 hq
  have hsome : (l.lookup e.1).isSome := List.lookup_isSome_iff.2 ⟨e, he, beq_self_eq_true _⟩
  obtain ⟨b, hb⟩ := Option.isSome_iff_exists.1 hsome
  rw [List.lookup_append, hb, Option.some_or]

/-- The Jacobian of a step of a duration has a block more, at the end. -/
theorem Factor.block?_phase [Runtime α] {x₀ x₁ r₀ r₁ k q : Key} {scheme : CollocationScheme}
    {noise noise' : Noise α} (hk : vs.scalar k = .ok dt)
    (hq : q ∈ (Relation.collocation x₀ x₁ r₀ r₁ (.fixed dt) scheme).keys) :
    Factor.block? ⟨.collocation x₀ x₁ r₀ r₁ (.phase k) scheme, noise⟩ vs q =
      Factor.block? ⟨.collocation x₀ x₁ r₀ r₁ (.fixed dt) scheme, noise'⟩ vs q := by
  simp only [block?, blocks, Relation.exactBlocks?, Relation.readStep_phase hk]
  cases Relation.readStep vs x₀ x₁ r₀ r₁ (.fixed dt) scheme with
  | error e => rfl
  | ok read =>
    refine congrArg Except.ok ?_
    cases scheme with
    | euler => exact lookup_append_of_mem (l := [_, _, _]) [_] hq
    | trapezoidal => exact lookup_append_of_mem (l := [_, _, _, _]) [_] hq

/-- **Corresponding factors agree where the durations are the known length.** -/
theorem Factor.SameStep.agreesAt {f f' : Factor α} (h : f.SameStep p dt f')
    (hp : ∀ k, p k → vs.scalar k = .ok dt) : f.AgreesAt vs f' := by
  obtain ⟨relation, noise⟩ := f
  obtain ⟨relation', noise'⟩ := f'
  obtain rfl := h.noise_eq
  cases h.relation with
  | refl => exact .refl vs _
  | collocation hk =>
    refine ⟨rfl, ?_, fun q _ hq => block?_phase (hp _ hk) hq⟩
    simp only [residual, Relation.residual, Relation.readStep_phase (hp _ hk)]

end Agreement

/-! ## 3. Corresponding graphs -/

section Graphs

variable {α : Type} {g g' : FactorGraph α} {p : Key → Prop} {dt : α}

/-- The variables of the graphs are the same but for the lengths of steps. -/
theorem FactorGraph.mem_keys_sameStep
    (h : ReorderedBy (Factor.SameStep p dt) g.factors g'.factors) {k : Key} :
    (k ∈ g'.keys.toList → k ∈ g.keys.toList) ∧ (k ∈ g.keys.toList → k ∈ g'.keys.toList ∨ p k) := by
  rw [mem_keys_iff, mem_keys_iff]
  constructor
  · rintro ⟨f', hf', hk⟩
    obtain ⟨f, hf, hsame⟩ := h.symm.exists_related hf'
    obtain ⟨ks, hkeys, -⟩ := hsame.keys_eq
    exact ⟨f, hf, hkeys ▸ List.mem_append_left ks hk⟩
  · rintro ⟨f, hf, hk⟩
    obtain ⟨f', hf', hsame⟩ := h.exists_related hf
    obtain ⟨ks, hkeys, hks⟩ := hsame.keys_eq
    rw [hkeys] at hk
    exact (List.mem_append.1 hk).imp (fun hk => ⟨f', hf', hk⟩) (hks k)

end Graphs

namespace Builder

/-! ## 4. Corresponding trajectories -/

section Trajectories

variable {α : Type} {b : Builder α} {r : Robot α} {t : Nat} {scheme : CollocationScheme}
  {p : Key → Prop} {dt : α} {g : FactorGraph α}

/-- **The factors of a step correspond**, whatever variable it takes for its length. -/
theorem collocationWith_sameStep {k : Key} (hk : r.joints ≠ [] → p k) :
    Alike (fun g g' => List.Forall₂ (Factor.SameStep p dt) g.factors g'.factors)
      (b.collocationWith r t (.phase k) scheme) (b.collocation r t dt scheme) := by
  refine (Alike.mapM (R := List.Forall₂ (Factor.SameStep p dt)) fun j hj => ?_).bind
    fun fss fss' hsame => .pure (List.rel_flatten hsame)
  have hp : p k := hk (List.ne_nil_of_mem (List.mem_mergeSort.1 hj))
  refine .bind_same fun q₀ => .bind_same fun q₁ => .bind_same fun v₀ => .bind_same fun v₁ =>
    .bind_same fun a₀ => .bind_same fun a₁ => .pure ?_
  exact .cons ⟨.collocation hp, rfl⟩ (.cons ⟨.collocation hp, rfl⟩ .nil)

/-- The key is that of the duration of a phase of the robot, which has a joint to integrate. -/
def IsDurationKey (r : Robot α) (numPhases : Nat) (k : Key) : Prop :=
  r.joints ≠ [] ∧ ∃ phase < numPhases, (Variable.phaseDuration phase).key? = some k

theorem scalar_of_hasDurations [Scalar α] {vs : Values α} {numPhases : Nat} {k : Key}
    (h : vs.HasDurations numPhases dt) (hk : IsDurationKey r numPhases k) :
    vs.scalar k = .ok dt := by
  obtain ⟨-, phase, hphase, hkey⟩ := hk
  obtain ⟨k', hk', hdt⟩ := bind_eq_ok.1 (h phase hphase)
  obtain rfl : k = k' := Option.some.inj (hkey.symm.trans (Variable.key_eq_ok.1 hk'))
  exact hdt

variable {robots : List (Robot α)} {phaseSteps : List Nat}

/-- A step of a phase corresponds to one of known length. -/
theorem stepAt_sameStep (dt : α) (hphases : phaseSteps ≠ [])
    (hrobot : robotAt robots phaseSteps t = r)
    (h : b.stepAt robots phaseSteps scheme t = .ok g) :
    ∃ g', b.collocation r t dt scheme = .ok g' ∧
      List.Forall₂ (Factor.SameStep (IsDurationKey r phaseSteps.length) dt) g.factors
        g'.factors := by
  unfold stepAt phaseCollocation at h
  rw [hrobot] at h
  obtain ⟨k, hk, h⟩ := bind_eq_ok.1 h
  refine (collocationWith_sameStep fun hjoints => ⟨hjoints, _, phaseAt_lt hphases t, ?_⟩).answer h
  exact Variable.key_eq_ok.1 hk

variable [Scalar α] [Runtime α] {gravity : Vec3 α} {planar : Option (Vec3 α)}

/-- **A tiling with one robot corresponds to a trajectory of steps of known length.** -/
theorem tiling_sameStep (dt : α) (hphases : phaseSteps ≠ [])
    (hrobot : ∀ t, robotAt robots phaseSteps t = r)
    (h : b.tiling robots phaseSteps none scheme gravity planar = .ok g) :
    ∃ g', b.trajectory r phaseSteps.sum dt scheme gravity planar = .ok g' ∧
      List.Forall₂ (Factor.SameStep (IsDurationKey r phaseSteps.length) dt) g.factors
        g'.factors := by
  obtain ⟨slices, hslices, h⟩ := bind_eq_ok.1 h
  obtain ⟨steps, hsteps, rfl⟩ := map_eq_ok.1 h
  obtain ⟨steps', hsteps', hsame⟩ := exists_mapM_eq_ok hsteps fun t _ step hstep =>
    stepAt_sameStep dt hphases (hrobot t) hstep
  have hslices' : (List.range (phaseSteps.sum + 1)).mapM
      (fun t => b.slice r t gravity planar) = .ok slices := by
    rw [← hslices]
    refine mapM_congr fun t _ => ?_
    rw [← hrobot t]
    rfl
  refine ⟨.join (slices ++ steps'), bind_eq_ok.2 ⟨slices, inParallel_eq_ok.2 hslices',
    map_eq_ok.2 ⟨steps', hsteps', rfl⟩⟩, ?_⟩
  refine List.rel_flatMap (List.rel_append (List.forall₂_same.2 fun part _ => ?_) hsame)
    fun _ _ hpart => hpart
  exact List.forall₂_same.2 fun f _ => .refl f

/-- What is assembled over phases is the tiling, up to order. -/
theorem exists_tiling (h : b.multiPhase robots phaseSteps none scheme gravity planar = .ok g) :
    ∃ g', b.tiling robots phaseSteps none scheme gravity planar = .ok g' ∧
      g.factors.Perm g'.factors := by
  have hwell := wellPhased_of_multiPhase h
  have hmade := multiPhase_madeOf hwell h
  have hslices := mapM_answerOr (f := b.sliceAt robots phaseSteps none gravity planar) .empty
    (l := List.range (phaseSteps.sum + 1)) fun t ht => by
      obtain ⟨part, hpart, -⟩ :=
        hmade.succeeds _ (.inl ⟨t, Nat.le_of_lt_succ (List.mem_range.1 ht), rfl⟩)
      exact ⟨part, hpart⟩
  have hsteps := mapM_answerOr (f := b.stepAt robots phaseSteps scheme) .empty
    (l := List.range phaseSteps.sum) fun t ht => by
      obtain ⟨part, hpart, -⟩ := hmade.succeeds _ (.inr ⟨t, List.mem_range.1 ht, rfl⟩)
      exact ⟨part, hpart⟩
  have htiling : b.tiling robots phaseSteps none scheme gravity planar = .ok _ :=
    bind_eq_ok.2 ⟨_, hslices, map_eq_ok.2 ⟨_, hsteps, rfl⟩⟩
  exact ⟨_, htiling, multiPhase_factors hwell h htiling⟩

/-- **A trajectory over phases of one robot corresponds to one of steps of known length.** -/
theorem multiPhase_sameStep (dt : α)
    (h : b.multiPhase (List.replicate phaseSteps.length r) phaseSteps none scheme gravity planar =
      .ok g) :
    ∃ g', b.trajectory r phaseSteps.sum dt scheme gravity planar = .ok g' ∧
      ReorderedBy (Factor.SameStep (IsDurationKey r phaseSteps.length) dt) g.factors
        g'.factors := by
  have hwell := wellPhased_of_multiPhase h
  have hrobot : ∀ t, robotAt (List.replicate phaseSteps.length r) phaseSteps t = r := fun t =>
    List.eq_of_mem_replicate (hwell.robotAt_mem t)
  obtain ⟨tiles, htiles, hperm⟩ := exists_tiling h
  obtain ⟨g', hg', hsame⟩ := tiling_sameStep dt hwell.nonempty hrobot htiles
  exact ⟨g', hg', .of_perm_trans hperm (.of_forall₂ hsame)⟩

/-- The durations of all phases are among the variables, if there is a joint to integrate. -/
theorem mem_keys_of_isDurationKey {k : Key}
    (h : b.multiPhase (List.replicate phaseSteps.length r) phaseSteps none scheme gravity planar =
      .ok g) (hk : IsDurationKey r phaseSteps.length k) : k ∈ g.keys.toList := by
  have hwell := wellPhased_of_multiPhase h
  obtain ⟨hjoints, phase, hphase, hkey⟩ := hk
  obtain ⟨t, ht, rfl⟩ := exists_time_of_phase hwell.steps_ne_zero hphase
  obtain ⟨part, hpart, hsub⟩ := (multiPhase_madeOf hwell h).succeeds _ (.inr ⟨t, ht, rfl⟩)
  rw [stepAt, List.eq_of_mem_replicate (hwell.robotAt_mem t)] at hpart
  obtain ⟨f, hf, k', hk', hkey'⟩ := phaseCollocation_mentions hjoints hpart
  obtain rfl : k = k' := Option.some.inj (hkey.symm.trans hkey')
  exact FactorGraph.mem_keys (hsub f hf) hk'

/-- The variables of a trajectory of steps of known length have times. -/
theorem not_isDurationKey_of_mem_keys (hr : r.Valid) {numSteps numPhases : Nat} {k : Key}
    (h : b.trajectory r numSteps dt scheme gravity planar = .ok g) (hk : k ∈ g.keys.toList) :
    ¬ IsDurationKey r numPhases k := by
  rintro ⟨-, phase, -, hkey⟩
  obtain ⟨f, hf, hk⟩ := FactorGraph.mem_keys_iff.1 hk
  have hwithin := trajectory_within hr h f hf
  rw [Factor.keys, ← Relation.map_fst_reads hwithin.regular.isBuiltIn] at hk
  obtain ⟨e, he, rfl⟩ := List.mem_map.1 hk
  obtain ⟨v, hv, hkey', -⟩ := hwithin.reads e he
  obtain rfl := Variable.eq_of_key hkey hkey'
  rcases hv with ⟨t, -, hhas⟩ | ⟨q, hq, -⟩
  · exact hhas
  · exact absurd hq (Nat.not_lt_zero q)

end Trajectories

/-- **Variable and known lengths of steps.** For a valid robot, phases that have steps and end
within the times that fit are assembled. What is assembled over phases has the factors of the
trajectory with as many steps of the length `dt`, in some order: where the durations of all phases
are `dt`, corresponding factors have the same noise, the same residual and the same blocks for the
variables that they share, and both graphs have the same error as far as sums are exact. The
variables are those of the trajectory and, if there is a joint, the durations of the phases. -/
theorem multiPhase_fixedSteps {α : Type} [Scalar α] [Runtime α] (b : Builder α) {r : Robot α}
    (hr : r.check = .ok ()) (phaseSteps : List Nat) (dt : α) (scheme : CollocationScheme)
    (gravity : Vec3 α) (planar : Option (Vec3 α)) :
    (phaseSteps ≠ [] → 0 ∉ phaseSteps → phaseSteps.sum ≤ maxIndex →
      ∃ g, b.multiPhase (List.replicate phaseSteps.length r) phaseSteps none scheme gravity
        planar = .ok g) ∧
    ∀ g, b.multiPhase (List.replicate phaseSteps.length r) phaseSteps none scheme gravity planar =
        .ok g →
      ∃ g', b.trajectory r phaseSteps.sum dt scheme gravity planar = .ok g' ∧
        ReorderedBy
          (fun f f' => ∀ vs : Values α, vs.HasDurations phaseSteps.length dt → f.AgreesAt vs f')
          g.factors g'.factors ∧
        (∀ vs : Values α, vs.HasDurations phaseSteps.length dt →
          Matching (UpToSums α) (g.error vs) (g'.error vs)) ∧
        ∀ k, (k ∈ g.keys.toList ↔ k ∈ g'.keys.toList ∨ IsDurationKey r phaseSteps.length k) ∧
          (k ∈ g'.keys.toList → ¬ IsDurationKey r phaseSteps.length k) := by
  have hvalid : r.Valid := Robot.check_eq_ok_iff.1 hr
  refine ⟨fun hphases hsteps hle => ?_, fun g hg => ?_⟩
  · refine (multiPhase_needsKeys (fun r' hr' => ?_) (wellPhased_replicate hphases hsteps)).succeeds
      hle
    exact List.eq_of_mem_replicate hr' ▸ hvalid
  · obtain ⟨g', hg', hsame⟩ := multiPhase_sameStep dt hg
    have hagrees : ∀ vs : Values α, vs.HasDurations phaseSteps.length dt → ∀ f f' : Factor α,
        f.SameStep (IsDurationKey r phaseSteps.length) dt f' → f.AgreesAt vs f' := by
      intro vs hvs f f' hf
      exact hf.agreesAt fun k hk => scalar_of_hasDurations hvs hk
    refine ⟨g', hg', hsame.mono fun f f' hf vs hvs => hagrees vs hvs f f' hf, fun vs hvs => ?_,
      fun k => ⟨?_, not_isDurationKey_of_mem_keys hvalid hg'⟩⟩
    · refine FactorGraph.error_matching_of_cost vs hsame fun f f' hf => ?_
      rw [(hagrees vs hvs f f' hf).cost_eq]
      exact .same fun _ _ => rfl
    · obtain ⟨hsub, hsup⟩ := FactorGraph.mem_keys_sameStep hsame (k := k)
      exact ⟨hsup, fun hk => hk.elim hsub (mem_keys_of_isDurationKey hg)⟩

/-- Two phases take a tenth each. -/
noncomputable def tenths (vs : Values ℝ) : Values ℝ :=
  (vs.insert (slot (.phaseDuration 1)) (.scalar (1 / 10))).insert (slot (.phaseDuration 0))
    (.scalar (1 / 10))

theorem tenths_hasDurations (vs : Values ℝ) : (tenths vs).HasDurations 2 (1 / 10)
  | 0, _ => by
    refine bind_eq_ok.2 ⟨slot (.phaseDuration 0), rfl, Values.scalar_eq_ok ?_⟩
    rw [tenths, Values.get?_insert, if_pos rfl]
  | 1, _ => by
    have hother : slot (.phaseDuration 1) ≠ slot (.phaseDuration 0) := by decide
    refine bind_eq_ok.2 ⟨slot (.phaseDuration 1), rfl, Values.scalar_eq_ok ?_⟩
    rw [tenths, Values.get?_insert, if_neg hother, Values.get?_insert, if_pos rfl]
  | phase + 2, h => absurd h (by omega)

/-- An arm in two phases, of one step and of two, and in three steps of a tenth, at rest. -/
theorem multiPhase_fixedSteps_twoLinkArm :
    let r : Robot ℝ := .twoLinkArm
    let b : Builder ℝ := ofSettings .default
    r.check = .ok () ∧ [1, 2] ≠ [] ∧ 0 ∉ [1, 2] ∧ [1, 2].sum ≤ maxIndex ∧
      ∃ g g' rest e, b.multiPhase [r, r] [1, 2] none .trapezoidal 0 none = .ok g ∧
        b.trajectory r 3 (1 / 10) .trapezoidal 0 none = .ok g' ∧
        r.restTrajectory 3 2 = .ok rest ∧ (tenths rest).HasDurations 2 (1 / 10) ∧
        ReorderedBy (Factor.AgreesAt (tenths rest)) g.factors g'.factors ∧
        (∀ f ∈ g.factors, ∃ rows, f.residual (tenths rest) = .ok rows) ∧
        g.error (tenths rest) = .ok e ∧ g'.error (tenths rest) = .ok e ∧
        ∀ k, k ∈ g.keys.toList ↔ k ∈ g'.keys.toList ∨ IsDurationKey r 2 k := by
  intro r b
  have hr : r.check = .ok () := rfl
  have hvalid : r.Valid := Robot.check_eq_ok_iff.1 hr
  have hfits : [1, 2].sum ≤ maxIndex := by decide
  obtain ⟨hassembled, hsteps⟩ := multiPhase_fixedSteps b hr [1, 2] (1 / 10) .trapezoidal 0 none
  obtain ⟨g, hg⟩ := hassembled (List.cons_ne_nil _ _) (by decide) hfits
  obtain ⟨g', hg', hfactors, herror, hkeys⟩ := hsteps g hg
  -- the values at rest have the kinds that are read, and durations are scalars
  have hall : ∀ group, group ∈ b.groups := fun group => by cases group <;> decide
  have hover : g.Over (r.HasUntil [1, 2].sum [1, 2].length) := multiPhase_over hvalid hall
    (List.cons_ne_nil _ _) (List.cons_ne_nil _ _) (by decide) hg
  obtain ⟨hrestOf, hrest⟩ := hvalid.restTrajectory_spec 3 2
  obtain ⟨rest, hrest⟩ := hrest.2 fun v hv => hover.fits hv
  have hduration : ∀ phase < 2, (Variable.phaseDuration phase).key? =
      some (slot (.phaseDuration phase)) → (rest.get? (slot (.phaseDuration phase))).map
        Value.kind = some .scalar := by
    intro phase hphase hkey
    rw [(hrestOf rest hrest _ _).2 ⟨_, .inr ⟨phase, hphase, rfl⟩, hkey, rfl⟩]
    rfl
  have hkinds : ∀ f ∈ g.factors, (tenths rest).HasKinds f.relation.reads := by
    intro f hf
    have hother : slot (.phaseDuration 0) ≠ slot (.phaseDuration 1) := by decide
    have hone := ((hover.within f hf).hasKinds (hrestOf rest hrest)).insert
      (v := .scalar (1 / 10)) (hduration 1 (by decide) rfl)
    refine hone.insert ?_
    rw [Values.get?_insert, if_neg hother]
    exact hduration 0 (by decide) rfl
  obtain ⟨e, he⟩ := hover.exists_error hkinds
  obtain ⟨e', he', hee'⟩ := (herror _ (tenths_hasDurations rest)).answer he
  obtain rfl : e = e' := hee' Scalar.exactSums_real
  refine ⟨hr, List.cons_ne_nil _ _, by decide, hfits, g, g', rest, e, hg, hg', hrest,
    tenths_hasDurations rest, hfactors.mono fun f f' hf => hf _ (tenths_hasDurations rest),
    fun f hf => ?_, he, he', fun k => (hkeys k).1⟩
  obtain ⟨rows, hrows, -⟩ := Factor.residual_answers (hover.within f hf).regular (hkinds f hf)
  exact ⟨rows, hrows⟩

end Builder

end Articulated
