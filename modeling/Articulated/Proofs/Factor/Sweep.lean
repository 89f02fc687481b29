import Articulated.Proofs.Number.Exact
import Articulated.Constraint.Basic
import Articulated.Proofs.Factor.Kinds
import Articulated.Proofs.Factor.Unweighted
import Articulated.Proofs.Spatial.RotationVector
import Mathlib.Tactic.IntervalCases
import Mathlib.Tactic.NormNum

/-!
# Factors are local

What a factor computes is determined by the values of its own variables, whatever else an assignment
holds. Central differences are taken on a copy of these variables: one variable after the other is
moved forth and back along each of its tangent directions, on the same copy and with the same
tangent vector, which are only partly put back in between. Nothing of one column is left over for
the next, so that every entry is a difference of residuals at the whole assignment with a single
variable moved.

* `Factor.sweep`: the differences with one copy and one tangent vector for all columns of a block.
* `Factor.sweep_eq`: nothing is left over between columns.
* `Factor.differences_eq_ok_iff`: the differences in terms of the whole assignment.
* `Factor.differences_local`: every factor of the library is local, also where its differences are
  taken on a copy.
-/

namespace Articulated

open Scalar Values

variable {α : Type} [Scalar α]

/-! ## 1. One copy for all columns -/

/-- Where the loop over the columns of a block stands: the copy, in which the variable has been
moved, the tangent vector of the move, and the columns, zero as far as they are still to come. -/
structure Sweep (α : Type) where
  perturbed : Values α
  delta : List α
  columns : Block α

namespace Factor

variable (f : Factor α) (own : Values α) (k : Key) (v : Value α) (ε : α)

/-- One column: the variable is moved forth, then back, and the tangent vector is cleared. The copy
stays as it is. -/
def sweepStep (s : Sweep α) (column : Nat) : Except (Fault α) (Sweep α) := do
  let delta := s.delta.set column ε
  let perturbed := s.perturbed.insert k (v.retract delta)
  let plus ← f.residual perturbed
  let delta := delta.set column (-ε)
  let perturbed := perturbed.insert k (v.retract delta)
  let minus ← f.residual perturbed
  if plus.length = f.dim ∧ minus.length = f.dim then
    return ⟨perturbed, delta.set column 0,
      s.columns.set column (List.zipWith (fun a b => (a - b) / (ε + ε)) plus minus)⟩
  else throw (.breach (.residualRows plus.length f.dim))

/-- The columns of one variable, from a copy and zeros. -/
def sweepBlock : Except (Fault α) (Block α) := do
  let start : Sweep α :=
    ⟨own, List.replicate v.dim 0, List.replicate v.dim (List.replicate f.dim 0)⟩
  return (← (List.range v.dim).foldlM (f.sweepStep k v ε) start).columns

/-- The central differences, with a copy of its own for every variable. -/
def sweep [Runtime α] (vs : Values α) (ε : α) : Except (Fault α) (List (Block α)) := do
  let own ← vs.subset f.keys
  inParallel f.keys fun k => do f.sweepBlock own k (← own.lookup k) ε

end Factor

/-! ## 2. Nothing is left over -/

theorem Scalar.length_axis (n i : Nat) (c : α) : (axis n i c).length = n := by
  rw [axis, List.length_map, List.length_range]

theorem Scalar.set_axis (n i : Nat) (b c : α) : (axis n i b).set i c = axis n i c := by
  refine List.ext_getElem (by rw [List.length_set, length_axis, length_axis]) fun j _ _ => ?_
  rw [List.getElem_set]
  by_cases hj : i = j
  · rw [if_pos hj]
    simp only [axis, List.getElem_map, List.getElem_range, if_pos hj.symm]
  · rw [if_neg hj]
    simp only [axis, List.getElem_map, List.getElem_range, if_neg (Ne.symm hj)]

/-- No direction at all. -/
theorem Scalar.axis_none (n i : Nat) : axis n i (0 : α) = List.replicate n 0 := by
  simp only [axis, ite_self, List.map_const', List.length_range]

omit [Scalar α] in
theorem Values.insert_insert (vs : Values α) (k : Key) (v w : Value α) :
    (vs.insert k v).insert k w = vs.insert k w := by
  refine ext_get? fun q => ?_
  rw [get?_insert, get?_insert, get?_insert]
  split <;> rfl

namespace Sweep

/-- Up to the value of the variable, the copy is the given one, and the tangent vector is clear. -/
structure Clean (own : Values α) (k : Key) (v : Value α) (s : Sweep α) : Prop where
  insert_eq : ∀ w, s.perturbed.insert k w = own.insert k w
  delta_eq : s.delta = List.replicate v.dim 0

end Sweep

namespace Factor

variable {f : Factor α} {own : Values α} {k : Key} {v : Value α} {ε : α}

/-- **From a clean state, a column is the one of a fresh copy, and the state is clean again.** -/
theorem sweepStep_eq {s : Sweep α} (hs : s.Clean own k v) (column : Nat) :
    ∃ s' : Sweep α, s'.Clean own k v ∧ f.sweepStep k v ε s column =
        do return { s' with
          columns := s.columns.set column (← f.differenceColumn own k v ε column) } := by
  have hforth : s.delta.set column ε = axis v.dim column ε := by
    rw [hs.delta_eq, ← axis_none v.dim column, set_axis]
  have hback : (axis v.dim column ε).set column (-ε) = axis v.dim column (-ε) := set_axis ..
  have hclear : (axis v.dim column (-ε)).set column 0 = List.replicate v.dim 0 := by
    rw [set_axis, axis_none]
  refine ⟨⟨own.insert k (v.retract (axis v.dim column (-ε))), List.replicate v.dim 0, []⟩,
    ⟨fun w => insert_insert .., rfl⟩, ?_⟩
  unfold sweepStep differenceColumn moved
  dsimp only
  rw [hforth, hback, hclear, insert_insert, hs.insert_eq, hs.insert_eq]
  cases f.residual (own.insert k (v.retract (axis v.dim column ε))) with
  | error e => rfl
  | ok plus =>
    cases f.residual (own.insert k (v.retract (axis v.dim column (-ε)))) with
    | error e => rfl
    | ok minus =>
      show (if _ then _ else _) = (if _ then _ else _) >>= _
      split <;> rfl

/-- **The columns that are still to come are those of fresh copies.** -/
theorem sweepColumns_eq : ∀ (n : Nat) (done : Block α) {s : Sweep α}, s.Clean own k v →
    s.columns = done ++ List.replicate n (List.replicate f.dim 0) →
      (do return (← (List.range' done.length n).foldlM (f.sweepStep k v ε) s).columns) =
        (do return done ++ (← (List.range' done.length n).mapM (f.differenceColumn own k v ε)))
  | 0, done, s, _, hcolumns => by
    show (pure s.columns : Except (Fault α) (Block α)) = pure (done ++ [])
    rw [hcolumns]
    rfl
  | n + 1, done, s, hs, hcolumns => by
    obtain ⟨s', hs', hstep⟩ := sweepStep_eq (f := f) (ε := ε) hs done.length
    rw [List.range'_succ, List.foldlM_cons, List.mapM_cons, hstep]
    cases hcolumn : f.differenceColumn own k v ε done.length with
    | error e => rfl
    | ok column =>
      have hset : s.columns.set done.length column =
          (done ++ [column]) ++ List.replicate n (List.replicate f.dim 0) := by
        rw [hcolumns, List.set_append_right _ _ (Nat.le_refl _), Nat.sub_self, List.replicate_succ,
          List.set_cons_zero, List.append_assoc]
        rfl
      let next : Sweep α := { s' with columns := s.columns.set done.length column }
      have hnext : next.Clean own k v := ⟨hs'.insert_eq, hs'.delta_eq⟩
      have ih := sweepColumns_eq n (done ++ [column]) hnext hset
      rw [List.length_append, List.length_singleton] at ih
      refine ih.trans ?_
      show _ = (do return done ++ (← (do return column :: (← List.mapM _ _))))
      simp only [bind_assoc, pure_bind, List.append_assoc, List.singleton_append]

/-- **One copy and one tangent vector for all columns do as well as fresh ones.** -/
theorem sweep_eq [Runtime α] (f : Factor α) (vs : Values α) (ε : α) :
    f.sweep vs ε = f.differences vs ε := by
  unfold sweep differences
  refine congrArg _ (funext fun own => congrArg (inParallel f.keys) (funext fun k => ?_))
  refine congrArg _ (funext fun v => ?_)
  have hstart : Sweep.Clean own k v
      ⟨own, List.replicate v.dim 0, List.replicate v.dim (List.replicate f.dim 0)⟩ :=
    ⟨fun _ => rfl, rfl⟩
  have hrun := sweepColumns_eq v.dim [] (f := f) (ε := ε) hstart rfl
  rw [List.length_nil, ← List.range_eq_range'] at hrun
  refine hrun.trans ?_
  simp only [List.nil_append, bind_pure]

/-! ## 3. Differences at the whole assignment -/

/-- The column is half the difference of two residuals over the disturbance, both at the assignment
with one variable moved along one tangent direction. -/
def IsDifference (f : Factor α) (vs : Values α) (ε : α) (k : Key) (v : Value α) (direction : Nat)
    (column : List α) : Prop :=
  ∃ plus minus, f.residual (vs.insert k (v.retract (axis v.dim direction ε))) = .ok plus ∧
    f.residual (vs.insert k (v.retract (axis v.dim direction (-ε)))) = .ok minus ∧
    plus.length = f.dim ∧ minus.length = f.dim ∧
    column = List.zipWith (fun a b => (a - b) / (ε + ε)) plus minus

/-- The block has a column of differences for every tangent direction of the variable. -/
def IsDifferenceBlock (f : Factor α) (vs : Values α) (ε : α) (k : Key) (block : Block α) : Prop :=
  ∃ v, vs.get? k = some v ∧ List.Forall₂ (f.IsDifference vs ε k v) (List.range v.dim) block

theorem differenceColumn_eq_ok {vs : Values α} {direction : Nat} {column : List α} :
    f.differenceColumn vs k v ε direction = .ok column ↔
      f.IsDifference vs ε k v direction column := by
  unfold differenceColumn IsDifference
  rw [bind_eq_ok]
  refine exists_congr fun plus => ?_
  rw [bind_eq_ok]
  constructor
  · intro h
    obtain ⟨hplus, minus, hminus, h⟩ := h
    split at h
    · rename_i hlength
      exact ⟨minus, hplus, hminus, hlength.1, hlength.2, (pure_eq_ok.1 h).symm⟩
    · cases h
  · intro h
    obtain ⟨minus, hplus, hminus, hlength, hlength', rfl⟩ := h
    exact ⟨hplus, minus, hminus, if_pos ⟨hlength, hlength'⟩⟩

/-- On a copy that agrees with the assignment, a column is the one of the assignment. -/
theorem differenceColumn_congr (hf : f.relation.IsBuiltIn) {vs vs' : Values α}
    (h : AgreeOn f.keys vs vs') (k : Key) (v : Value α) (ε : α) :
    f.differenceColumn vs k v ε = f.differenceColumn vs' k v ε := by
  funext direction
  unfold differenceColumn moved
  rw [residual_congr hf (h.insert k _), residual_congr hf (h.insert k _)]

theorem differenceBlock_eq_ok (hf : f.relation.IsBuiltIn) {vs : Values α}
    (h : AgreeOn f.keys own vs) (hk : k ∈ f.keys) {block : Block α} :
    f.differenceBlock own ε k = .ok block ↔ f.IsDifferenceBlock vs ε k block := by
  rw [differenceBlock, bind_eq_ok, h.lookup_eq hk]
  refine exists_congr fun v => and_congr lookup_eq_ok ?_
  rw [mapM_eq_ok, differenceColumn_congr hf h]
  simp only [differenceColumn_eq_ok]

/-- **Central differences are those of the whole assignment, with one variable moved.** -/
theorem differences_eq_ok_iff [Runtime α] (hf : f.relation.IsBuiltIn) (vs : Values α) (ε : α)
    (blocks : List (Block α)) : f.differences vs ε = .ok blocks ↔
      List.Forall₂ (f.IsDifferenceBlock vs ε) f.keys blocks := by
  have hcopy : ∀ {own}, vs.subset f.keys = .ok own →
      (inParallel f.keys (f.differenceBlock own ε) = .ok blocks ↔
        List.Forall₂ (f.IsDifferenceBlock vs ε) f.keys blocks) := by
    intro own hown
    have hagree : AgreeOn f.keys own vs := fun k hk => by rw [get?_subset hown, if_pos hk]
    rw [inParallel_eq_ok, mapM_eq_ok, List.forall₂_iff_zip, List.forall₂_iff_zip]
    refine and_congr_right fun _ => forall₃_congr fun k block hmem => ?_
    exact differenceBlock_eq_ok hf hagree (List.of_mem_zip hmem).1
  unfold differences
  rw [bind_eq_ok]
  constructor
  · intro h
    obtain ⟨own, hown, h⟩ := h
    exact (hcopy hown).1 h
  · intro h
    have hpresent : ∀ k ∈ f.keys, ∃ v, vs.get? k = some v := by
      intro k hk
      obtain ⟨block, -, v, hv, -⟩ := exists_answer h hk
      exact ⟨v, hv⟩
    obtain ⟨own, hown, -⟩ := subset_answers hpresent
    exact ⟨own, hown, (hcopy hown).2 h⟩

/-! ## 4. Locality -/

/-- Assignments that agree on the variables of the factor, in presence and in value, cannot be told
apart by anything that the factor computes, failures included. -/
structure IsLocal [Runtime α] (f : Factor α) : Prop where
  residual_eq : ∀ {vs vs'}, AgreeOn f.keys vs vs' → f.residual vs = f.residual vs'
  whitened_eq : ∀ {vs vs'}, AgreeOn f.keys vs vs' → f.whitened vs = f.whitened vs'
  cost_eq : ∀ {vs vs'}, AgreeOn f.keys vs vs' → f.cost vs = f.cost vs'
  blocks_eq : ∀ {vs vs'}, AgreeOn f.keys vs vs' → f.blocks vs = f.blocks vs'
  differences_eq : ∀ {vs vs'}, AgreeOn f.keys vs vs' → ∀ ε,
    f.differences vs ε = f.differences vs' ε
  linearize_eq : ∀ {vs vs'}, AgreeOn f.keys vs vs' → ∀ whiten,
    f.linearize vs whiten = f.linearize vs' whiten

theorem isLocal [Runtime α] (hf : f.relation.IsBuiltIn) : f.IsLocal where
  residual_eq := residual_congr hf
  whitened_eq h := by
    unfold whitened
    rw [residual_congr hf h]
  cost_eq := cost_congr hf
  blocks_eq := blocks_congr hf
  differences_eq := differences_congr
  linearize_eq := linearize_congr hf

/-- **Every factor of the library is local.** So is the cost that stands for it as a constraint,
whose blocks are those of the factor. Differences that share one copy and one tangent vector among
the columns of a block are those of fresh ones. They are taken at the whole assignment, where only
one variable is moved forth and back along one tangent direction. -/
theorem differences_local [Runtime α] (hf : f.relation.IsBuiltIn) :
    f.IsLocal ∧
      (∀ tolerance sigma, (Constraint.penalty ⟨f, tolerance⟩ sigma).IsLocal ∧
        ∀ vs, (Constraint.penalty ⟨f, tolerance⟩ sigma).blocks vs = f.blocks vs) ∧
      ∀ vs ε, f.sweep vs ε = f.differences vs ε ∧
        ∀ blocks, f.differences vs ε = .ok blocks ↔
          List.Forall₂ (f.IsDifferenceBlock vs ε) f.keys blocks := by
  refine ⟨isLocal hf, fun tolerance sigma => ⟨isLocal hf, ?_⟩,
    fun vs ε => ⟨sweep_eq f vs ε, differences_eq_ok_iff hf vs ε⟩⟩
  have hsame : (Constraint.penalty ⟨f, tolerance⟩ sigma).SameButNoise f :=
    sameButNoise_of_unweighted (unweighted_eq_iff.2 ⟨rfl, List.length_replicate⟩)
  exact hsame.blocks_eq

/-- Half the difference of the same move forth and back by one. -/
theorem zipWith_axis (n i : Nat) :
    List.zipWith (fun a b => (a - b) / (1 + 1)) (axis n i (1 : ℝ)) (axis n i (-1)) =
      axis n i 1 := by
  unfold axis
  rw [List.zipWith_map, List.zipWith_self]
  refine List.map_congr_left fun j _ => ?_
  split <;> norm_num

/-- A turn about a coordinate axis by one is found again. -/
theorem residual_moved_pose {k : Key} (vs : Values ℝ) {i : Nat} (hi : i < 6) {s : ℝ}
    (hs : s * s = 1) : (prior k (.pose Pose.identity) 1).residual
      (vs.insert k ((Value.pose Pose.identity).retract (axis 6 i s))) = .ok (axis 6 i s) := by
  have hangular : (SpatialVector.ofList (axis 6 i s)).angular =
      ⟨if 0 = i then s else 0, if 1 = i then s else 0, if 2 = i then s else 0⟩ := rfl
  have hshort : (SpatialVector.ofList (axis 6 i s)).angular.normSq ≤ 1 := by
    rw [hangular]
    interval_cases i <;> simp [Vec3.normSq, Vec3.dot, hs]
  have hπ : (SpatialVector.ofList (axis 6 i s)).angular.norm ≤ Real.pi :=
    (Real.sqrt_le_one.2 hshort).trans (by linarith [Real.two_le_pi])
  have hlookup : (vs.insert k ((Value.pose Pose.identity).retract (axis 6 i s))).lookup k =
      .ok ((Value.pose Pose.identity).retract (axis 6 i s)) :=
    lookup_eq_ok.2 (by rw [get?_insert, if_pos rfl])
  refine bind_eq_ok.2 ⟨_, hlookup, ?_⟩
  show Except.ok (SpatialVector.toList _) = _
  rw [Pose.localTo_mul_ofVector Pose.isRigid_identity hπ]
  rfl

/-- A pose is moved along six directions on one copy, turned along three of them, and each is found
on its own. A second variable makes no difference. -/
theorem differences_local_posePrior :
    let f : Factor ℝ := .prior ⟨1⟩ (.pose Pose.identity) 1
    let vs : Values ℝ := Values.empty.insert ⟨1⟩ (.pose Pose.identity)
    f.relation.IsBuiltIn ∧
      f.sweep (vs.insert ⟨2⟩ (.scalar 5)) 1 = .ok [Relation.identityBlock 6] ∧
      f.cost (vs.insert ⟨2⟩ (.scalar 5)) = f.cost vs := by
  intro f vs
  have hf : f.relation.IsBuiltIn := trivial
  obtain ⟨hlocal, -, hdifferences⟩ := differences_local hf
  obtain ⟨hsweep, hblocks⟩ := hdifferences vs 1
  have hagree : AgreeOn f.keys (vs.insert ⟨2⟩ (.scalar 5)) vs := agreeOn_insert (by decide) _ _
  have hvalue : vs.get? ⟨1⟩ = some (.pose Pose.identity) := by rw [get?_insert, if_pos rfl]
  have hblock : f.IsDifferenceBlock vs 1 ⟨1⟩ (Relation.identityBlock 6) := by
    refine ⟨_, hvalue, List.forall₂_map_right_iff.2 (List.forall₂_same.2 fun i hi => ?_)⟩
    have hi : i < 6 := List.mem_range.1 hi
    exact ⟨_, _, residual_moved_pose vs hi (by norm_num), residual_moved_pose vs hi (by norm_num),
      length_axis .., length_axis .., (zipWith_axis 6 i).symm⟩
  refine ⟨hf, ?_, hlocal.cost_eq hagree⟩
  rw [sweep_eq, hlocal.differences_eq hagree, (hblocks _).2 (.cons hblock .nil)]

end Factor

end Articulated
