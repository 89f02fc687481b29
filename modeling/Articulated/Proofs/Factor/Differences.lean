import Articulated.Proofs.Factor.Affine
import Articulated.Proofs.Factor.Shapes

/-!
# Known derivatives and central differences

The derivatives of a factor are known in closed form, or its variables are moved forth and back one
after the other. With exact numbers both give the same blocks wherever derivatives are known, since
each of these relations is straight along every single coordinate. The affine ones are so anyway. A
step whose duration is a variable is bilinear in rates and duration, but straight along each of
them. A limit bends at its bounds, so these must be out of reach.

* `Relation.HasSlope`: moving a variable along its coordinates adds multiples of columns.
* `Factor.differences_of_hasSlope`: central differences find the columns.
* `Relation.HasForm.hasSlope`, `Relation.hasSlope_jointLimit`, `Relation.hasSlope_phase`: the
  relations whose derivatives are known.
* `Factor.differences_eq_blocks`: both ways give the same blocks.
-/

namespace Articulated

open Scalar

/-! ## 1. Slopes -/

/-- Along each coordinate of a variable, a move by the length of `ε` forth or back changes the
residual by that multiple of a column. -/
def Relation.HasSlope (r : Relation ℝ) (vs : Values ℝ) (ε : ℝ) (rows : List ℝ) (k : Key)
    (v : Value ℝ) (b : Block ℝ) : Prop :=
  ∀ i < v.dim, ∀ s, |s| = |ε| →
    r.residual (vs.insert k (v.retract (axis v.dim i s))) =
      .ok (plus rows ((b.getD i []).map (s * ·)))

/-- Half the difference of two moves, forth and back, is the column. -/
theorem zipWith_central {ε : ℝ} (hε : ε ≠ 0) : ∀ {rows c : List ℝ}, rows.length = c.length →
    List.zipWith (fun x y => (x - y) / (ε + ε)) (plus rows (c.map (ε * ·)))
      (plus rows (c.map (-ε * ·))) = c
  | [], [], _ => rfl
  | x :: rows, d :: c, h => by
    have hcentral : (x + ε * d - (x + -ε * d)) / (ε + ε) = d := by
      have htwice : ε + ε ≠ 0 := by
        rw [← two_mul]
        exact mul_ne_zero two_ne_zero hε
      rw [div_eq_iff htwice]
      ring
    exact congrArg₂ List.cons hcentral (zipWith_central hε (Nat.succ.inj h))

section Central

variable {f : Factor ℝ} {vs : Values ℝ} {ε : ℝ} {rows : List ℝ} {blocks : List (Block ℝ)}

/-- **Where the residual is straight along every coordinate, central differences find its
slopes.** -/
theorem Factor.differences_of_hasSlope [Runtime ℝ] (hf : f.IsRegular)
    (hrows : f.residual vs = .ok rows) (hblocks : vs.HasBlocks f.dim f.keys blocks) (hε : ε ≠ 0)
    (hslope : ∀ k b v, (k, b) ∈ f.keys.zip blocks → vs.get? k = some v → b.length = v.dim →
      f.relation.HasSlope vs ε rows k v b) : f.differences vs ε = .ok blocks := by
  have hkinds := (Relation.residual_reads hf.isBuiltIn).kinds rows hrows
  have hheight : rows.length = f.dim := (exists_blocks hf hrows).1
  obtain ⟨own, hown, -, -⟩ := exists_own hf.isBuiltIn hkinds
  have hagree : Values.AgreeOn f.keys own vs := fun k hk => by
    rw [Values.get?_subset hown, if_pos hk]
  refine bind_eq_ok.2 ⟨own, hown, inParallel_eq_ok.2 (mapM_eq_ok.2 ?_)⟩
  refine List.forall₂_iff_zip.2 ⟨hblocks.length_eq, ?_⟩
  intro k b hmem
  obtain ⟨v, hv, hwidth, hcolumns⟩ := (List.forall₂_iff_zip.1 hblocks).2 hmem
  have hown : own.lookup k = .ok v :=
    Values.lookup_eq_ok.2 ((hagree k (List.of_mem_zip hmem).1).trans hv)
  refine bind_eq_ok.2 ⟨v, hown, mapM_eq_ok.2 (List.forall₂_iff_get.2 ?_)⟩
  refine ⟨List.length_range.trans hwidth.symm, fun i hi hib => ?_⟩
  have hmoved : ∀ s, |s| = |ε| →
      f.moved own k v i s = .ok (plus rows ((b.get ⟨i, hib⟩).map (s * ·))) := by
    intro s hs
    have hi : i < v.dim := hwidth ▸ hib
    have hmove := hslope k b v hmem hv hwidth i hi s hs
    rw [← List.getElem_eq_getD (h := hib)] at hmove
    exact (residual_congr hf.isBuiltIn (hagree.insert k _)).trans hmove
  have hcolumn : (b.get ⟨i, hib⟩).length = f.dim := hcolumns _ (List.get_mem ..)
  have hlength : ∀ s : ℝ, (plus rows ((b.get ⟨i, hib⟩).map (s * ·))).length = f.dim := by
    intro s
    rw [length_plus, hheight]
    rw [hheight, List.length_map, hcolumn]
  rw [List.get_eq_getElem, List.getElem_range]
  refine bind_eq_ok.2 ⟨_, hmoved ε rfl, bind_eq_ok.2 ⟨_, hmoved (-ε) (abs_neg ε), ?_⟩⟩
  rw [if_pos ⟨hlength ε, hlength (-ε)⟩]
  exact congrArg Except.ok (zipWith_central hε (hheight.trans hcolumn.symm))

end Central

/-! ## 2. Relations -/

namespace Relation

section Forms

variable {r : Relation ℝ} {a : AffineForm} {vs : Values ℝ} {ε : ℝ} {rows : List ℝ}

/-- A relation that is given by a form is straight along every coordinate. -/
theorem HasForm.hasSlope (ha : r.HasForm a) (hkeys : r.keys.Nodup) (h : r.residual vs = .ok rows)
    {k : Key} {b : Block ℝ} {v : Value ℝ} (hmem : (k, b) ∈ a.terms) (hv : vs.get? k = some v)
    (hwidth : b.length = v.dim) : r.HasSlope vs ε rows k v b := by
  intro i hi s _
  have hnodup : (a.terms.map Prod.fst).Nodup := ha.keys_eq ▸ hkeys
  have hcolumns : a.columns k v.dim = b := by
    unfold AffineForm.columns columnsFor
    rw [Key.lookup_of_mem hnodup hmem, Option.getD_some]
  have hδ : (axis v.dim i s).length = v.dim := (List.length_map _).trans List.length_range
  have hmove := (ha.residual_eq_ok.1 h).move hnodup hv hδ
  rw [hcolumns, ← hwidth, combine_axis s (a.haveHeight _ hmem) (hwidth ▸ hi), hwidth] at hmove
  exact ha.residual_eq_ok.2 hmove

end Forms

/-! ## 3. Limits -/

section Limits

variable {x s lower upper : ℝ}

theorem excess_of_le (hlower : x ≤ lower) (hbounds : lower ≤ upper) :
    excess x lower upper = x - lower := by
  unfold excess
  rcases hlower.lt_or_eq with hlt | rfl
  · rw [if_pos hlt]
  · rw [if_neg (lt_irrefl x), if_neg hbounds.not_gt, sub_self]

theorem excess_of_between (hlower : lower ≤ x) (hupper : x ≤ upper) :
    excess x lower upper = 0 := by
  rw [excess, if_neg hlower.not_gt, if_neg hupper.not_gt]

theorem excess_of_ge (hupper : upper ≤ x) (hbounds : lower ≤ upper) :
    excess x lower upper = x - upper := by
  rw [excess, if_neg (hbounds.trans hupper).not_gt]
  rcases hupper.lt_or_eq with hlt | rfl
  · rw [if_pos hlt]
  · rw [if_neg (lt_irrefl upper), sub_self]

/-- The distance to the bound that is passed changes with its slope, as long as no bound is within
reach. -/
theorem excess_add (hs : s ≠ 0) (hbounds : lower ≤ upper)
    (hlower : lower ∉ Set.Ioo (x - |s|) (x + |s|)) (hupper : upper ∉ Set.Ioo (x - |s|) (x + |s|)) :
    excess (x + s) lower upper = excess x lower upper + s * excessSlope x lower upper := by
  have hreach : 0 < |s| := abs_pos.2 hs
  have hback : -|s| ≤ s := neg_abs_le s
  have hforth : s ≤ |s| := le_abs_self s
  rw [Set.mem_Ioo, not_and_or, not_lt, not_lt] at hlower hupper
  unfold excessSlope
  rcases hlower with hlower | hlower
  · rcases hupper with hupper | hupper
    · rw [if_pos (.inr (by linarith)), excess_of_ge (by linarith) hbounds,
        excess_of_ge (by linarith) hbounds]
      ring
    · have hinside : ¬ (x < lower ∨ upper < x) := not_or.2 ⟨by linarith, by linarith⟩
      rw [if_neg hinside, excess_of_between (by linarith) (by linarith),
        excess_of_between (by linarith) (by linarith)]
      ring
  · rw [if_pos (.inl (by linarith)), excess_of_le (by linarith) hbounds,
      excess_of_le (by linarith) hbounds]
    ring

end Limits

/-- No bound of a limit is as near as `ε` to its variable. -/
def ClearOfBounds (vs : Values ℝ) (ε : ℝ) : Relation ℝ → Prop
  | jointLimit k lower upper => lower ≤ upper ∧ ∀ x, vs.scalar k = .ok x →
      lower ∉ Set.Ioo (x - |ε|) (x + |ε|) ∧ upper ∉ Set.Ioo (x - |ε|) (x + |ε|)
  | _ => True

section Single

variable {vs : Values ℝ} {ε : ℝ} {rows : List ℝ} {k : Key} {v : Value ℝ}

/-- A scalar variable that is moved along its coordinate. -/
theorem retract_scalar_axis (x s : ℝ) :
    (Value.scalar x).retract (axis (Value.scalar x).dim 0 s) = .scalar (x + s) := by
  rw [Value.dim, axis_zero]
  rfl

/-- A limit is straight where its bounds are out of reach. -/
theorem hasSlope_jointLimit {lower upper x : ℝ} (hε : ε ≠ 0)
    (hclear : (jointLimit k lower upper).ClearOfBounds vs ε) (hx : vs.scalar k = .ok x) :
    (jointLimit k lower upper).HasSlope vs ε [excess x lower upper] k (.scalar x)
      (scalarBlock (excessSlope x lower upper)) := by
  intro i hi s hs
  obtain rfl := Nat.lt_one_iff.1 hi
  obtain ⟨hbounds, hclear⟩ := hclear
  obtain ⟨hlower, hupper⟩ := hclear x hx
  have hs' : s ≠ 0 := abs_pos.1 (hs ▸ abs_pos.2 hε)
  have hmoved : (vs.insert k (.scalar (x + s))).scalar k = .ok (x + s) :=
    Values.scalar_eq_ok (by rw [Values.get?_insert, if_pos rfl])
  rw [retract_scalar_axis]
  refine map_eq_ok.2 ⟨x + s, hmoved, ?_⟩
  rw [excess_add hs' hbounds (hs ▸ hlower) (hs ▸ hupper)]
  rfl

end Single

/-! ## 4. Durations -/

section Durations

variable {vs : Values ℝ} {ε dt : ℝ} {rows : List ℝ} {x₀ x₁ r₀ r₁ k : Key}
  {scheme : CollocationScheme}

/-- A step of a duration that is `dt` has the residual of a step of the length `dt`. -/
theorem residual_phase (hk : vs.scalar k = .ok dt) :
    (collocation x₀ x₁ r₀ r₁ (.phase k) scheme).residual vs =
      (collocation x₀ x₁ r₀ r₁ (.fixed dt) scheme).residual vs := by
  simp only [residual, readStep_phase hk]

theorem keys_phase (dt : ℝ) : (collocation x₀ x₁ r₀ r₁ (.phase k) scheme : Relation ℝ).keys =
    (collocation x₀ x₁ r₀ r₁ (.fixed dt) scheme).keys ++ [k] := by
  cases scheme <;> rfl

/-- By how much a step grows with its length. -/
noncomputable def lengthSlope (b₀ b₁ : ℝ) : CollocationScheme → ℝ
  | .euler => -b₀
  | .trapezoidal => -half * (b₀ + b₁)

theorem residual_add_length (a₀ a₁ b₀ b₁ dt s : ℝ) (scheme : CollocationScheme) :
    scheme.residual a₀ a₁ b₀ b₁ (dt + s) =
      scheme.residual a₀ a₁ b₀ b₁ dt + s * lengthSlope b₀ b₁ scheme := by
  cases scheme <;> simp only [CollocationScheme.residual, CollocationScheme.integrate, lengthSlope]
    <;> ring

/-- The blocks of a step with a duration are those of a step of known length, and one for the
duration. -/
theorem blocks_phase {a₀ a₁ b₀ b₁ : ℝ}
    (hread : readStep vs x₀ x₁ r₀ r₁ (.fixed dt) scheme = .ok (a₀, a₁, b₀, b₁, dt))
    (hk : vs.scalar k = .ok dt) {blocks : List (Block ℝ)}
    (hblocks : ∃ exact, (collocation x₀ x₁ r₀ r₁ (.fixed dt) scheme).exactBlocks? = some exact ∧
      exact vs = .ok blocks) :
    ∃ exact, (collocation x₀ x₁ r₀ r₁ (.phase k) scheme).exactBlocks? = some exact ∧
      exact vs = .ok (blocks ++ [scalarBlock (lengthSlope b₀ b₁ scheme)]) := by
  obtain ⟨exact, hexact, hblocks⟩ := hblocks
  obtain rfl := Option.some.inj hexact
  obtain ⟨_, hread', rfl⟩ := map_eq_ok.1 hblocks
  obtain rfl := answer_unique hread hread'
  refine ⟨_, rfl, map_eq_ok.2 ⟨_, (readStep_phase hk).trans hread, ?_⟩⟩
  cases scheme <;> rfl

/-- A step with a duration is straight along each of its variables. -/
theorem hasSlope_phase
    (hkeys : (collocation x₀ x₁ r₀ r₁ (.phase k) scheme : Relation ℝ).keys.Nodup)
    (h : (collocation x₀ x₁ r₀ r₁ (.phase k) scheme).residual vs = .ok rows)
    {exact : Values ℝ → Except (Fault ℝ) (List (Block ℝ))} {blocks : List (Block ℝ)}
    (hexact : (collocation x₀ x₁ r₀ r₁ (.phase k) scheme).exactBlocks? = some exact)
    (hblocks : exact vs = .ok blocks) {q : Key} {b : Block ℝ} {v : Value ℝ}
    (hmem : (q, b) ∈ (collocation x₀ x₁ r₀ r₁ (.phase k) scheme : Relation ℝ).keys.zip blocks)
    (hv : vs.get? q = some v) (hwidth : b.length = v.dim) :
    (collocation x₀ x₁ r₀ r₁ (.phase k) scheme).HasSlope vs ε rows q v b := by
  obtain ⟨⟨a₀, a₁, b₀, b₁, dt⟩, hread, hrows⟩ := map_eq_ok.1 h
  obtain ⟨ha₀, ha₁, hb₀, hb₁, hk⟩ := readStep_eq_ok.1 hread
  have hfixed : (collocation x₀ x₁ r₀ r₁ (.fixed dt) scheme).residual vs = .ok rows :=
    (residual_phase hk).symm.trans h
  obtain ⟨a, ha⟩ := IsAffine.exists_form
    (r := collocation x₀ x₁ r₀ r₁ (.fixed dt) scheme) trivial
  obtain ⟨exact', hexact', hboth⟩ :=
    blocks_phase ((readStep_phase hk).symm.trans hread) hk (ha.blocks_eq hfixed)
  obtain rfl := Option.some.inj (hexact'.symm.trans hexact)
  obtain rfl := answer_unique hboth hblocks
  rw [keys_phase dt] at hkeys hmem
  have hlength : (collocation x₀ x₁ r₀ r₁ (.fixed dt) scheme).keys.length =
      (a.terms.map Prod.snd).length := by
    rw [ha.keys_eq, List.length_map, List.length_map]
  have hk_not_mem : k ∉ (collocation x₀ x₁ r₀ r₁ (.fixed dt) scheme).keys := fun hmem =>
    List.disjoint_of_nodup_append hkeys hmem List.mem_cons_self
  rw [List.zip_append hlength] at hmem
  intro i hi s hs
  rcases List.mem_append.1 hmem with hmem | hmem
  · -- the duration stands still, and the step is one of known length
    have hterm : (q, b) ∈ a.terms := by
      rwa [List.zip_of_prod ha.keys_eq.symm rfl]
    have hstill : q ∉ [k] := fun hq =>
      hk_not_mem (List.mem_singleton.1 hq ▸ (List.of_mem_zip hmem).1)
    have hk' : (vs.insert q (v.retract (axis v.dim i s))).scalar k = .ok dt := by
      rw [(Values.agreeOn_insert hstill vs _).scalar_eq List.mem_cons_self, ← hk]
      rfl
    rw [residual_phase hk']
    exact ha.hasSlope hkeys.of_append_left hfixed hterm hv hwidth i hi s hs
  · -- only the length of the step changes
    obtain ⟨rfl, rfl⟩ := Prod.mk.inj (List.mem_singleton.1 hmem)
    obtain rfl : v = .scalar dt :=
      Option.some.inj (hv.symm.trans (Values.lookup_eq_ok.1 (Values.lookup_of_scalar hk)))
    obtain rfl := Nat.lt_one_iff.1 hi
    rw [retract_scalar_axis]
    have hk' : (vs.insert q (.scalar (dt + s))).scalar q = .ok (dt + s) :=
      Values.scalar_eq_ok (by rw [Values.get?_insert, if_pos rfl])
    have hlonger := residual_congr (r := collocation x₀ x₁ r₀ r₁ (.fixed (dt + s)) scheme) trivial
      (Values.agreeOn_insert hk_not_mem vs (.scalar (dt + s)))
    rw [residual_phase hk', hlonger,
      residual_collocation_fixed.2 ⟨a₀, a₁, b₀, b₁, ha₀, ha₁, hb₀, hb₁, rfl⟩,
      residual_add_length, ← hrows]
    rfl

end Durations

end Relation

/-! ## 5. Both ways -/

/-- **Known derivatives are the central differences.** Where a factor with known derivatives and
distinct variables evaluates, its blocks are those that any disturbance of its variables finds, one
for each variable in their order. For a limit the disturbance must not reach a bound. -/
theorem Factor.differences_eq_blocks [Runtime ℝ] {f : Factor ℝ} (hf : f.IsRegular)
    (hexact : f.relation.exactBlocks?.isSome) (hkeys : f.keys.Nodup) {vs : Values ℝ}
    {rows : List ℝ} (h : f.residual vs = .ok rows) {ε : ℝ} (hε : ε ≠ 0)
    (hclear : f.relation.ClearOfBounds vs ε) :
    ∃ blocks, f.blocks vs = .ok blocks ∧ f.differences vs ε = .ok blocks ∧
      vs.HasBlocks f.dim f.keys blocks := by
  obtain ⟨-, blocks, hblocks, hshapes⟩ := exists_blocks hf h
  refine ⟨blocks, hblocks, differences_of_hasSlope hf h hshapes hε ?_, hshapes⟩
  intro k b v hmem hv hwidth
  obtain ⟨exact, hexact⟩ := Option.isSome_iff_exists.1 hexact
  have hanswer : exact vs = .ok blocks := by
    unfold Factor.blocks at hblocks
    rwa [hexact] at hblocks
  obtain ⟨r, n⟩ := f
  have haffine : r.IsAffine → r.HasSlope vs ε rows k v b := by
    intro hr
    obtain ⟨a, ha⟩ := hr.exists_form
    obtain ⟨exact', hexact', hform⟩ := ha.blocks_eq h
    obtain rfl := Option.some.inj (hexact'.symm.trans hexact)
    obtain rfl := answer_unique hform hanswer
    refine ha.hasSlope hkeys h ?_ hv hwidth
    rwa [List.zip_of_prod ha.keys_eq.symm rfl]
  cases r with
  | prior q value =>
    cases value with
    | scalar x | vector x => exact haffine trivial
    | pose x => cases hexact
  | torque | wrenchPlanar => exact haffine trivial
  | jointLimit q lower upper =>
    obtain ⟨x, hx, rfl⟩ := map_eq_ok.1 h
    obtain rfl := Option.some.inj hexact
    obtain ⟨y, hy, rfl⟩ := map_eq_ok.1 hanswer
    obtain rfl := answer_unique hx hy
    obtain ⟨rfl, rfl⟩ := Prod.mk.inj (List.mem_singleton.1 hmem)
    obtain rfl : v = .scalar x :=
      Option.some.inj (hv.symm.trans (Values.lookup_eq_ok.1 (Values.lookup_of_scalar hx)))
    exact Relation.hasSlope_jointLimit hε hclear hx
  | collocation x₀ x₁ r₀ r₁ step scheme =>
    cases step with
    | fixed dt => exact haffine trivial
    | phase q => exact Relation.hasSlope_phase hkeys h hexact hanswer hmem hv hwidth
  | custom r => exact hf.isBuiltIn.elim
  | between | jointPose | jointTwist | jointTwistAccel | wrenchBalance | wrenchEquivalence =>
    cases hexact

/-- A trapezoidal step over five variables, the last one its duration. -/
def phasedStep : Factor ℝ :=
  .isotropic (.collocation ⟨1⟩ ⟨2⟩ ⟨3⟩ ⟨4⟩ (.phase ⟨5⟩) .trapezoidal) 1 1

/-- From zero to one with rates of both signs, in a duration of one. -/
def phasedValues : Values ℝ :=
  ((((Values.empty.insert ⟨1⟩ (.scalar 0)).insert ⟨2⟩ (.scalar 1)).insert ⟨3⟩ (.scalar (-1))).insert
    ⟨4⟩ (.scalar 1)).insert ⟨5⟩ (.scalar 1)

/-- Steps of the length one find the derivatives of this bilinear residual. -/
theorem Factor.differences_eq_blocks_phasedStep :
    phasedStep.IsRegular ∧ phasedStep.relation.exactBlocks?.isSome ∧ phasedStep.keys.Nodup ∧
      (∃ rows, phasedStep.residual phasedValues = .ok rows) ∧
      ∃ blocks, phasedStep.blocks phasedValues = .ok blocks ∧
        phasedStep.differences phasedValues 1 = .ok blocks := by
  have hregular : phasedStep.IsRegular := isRegular_isotropic (r := phasedStep.relation) trivial 1
  have hkeys : phasedStep.keys.Nodup := by decide
  have hrows : phasedStep.residual phasedValues =
      .ok [CollocationScheme.residual 0 1 (-1) 1 1 .trapezoidal] := rfl
  obtain ⟨blocks, hblocks, hdifferences, -⟩ :=
    differences_eq_blocks hregular rfl hkeys hrows one_ne_zero trivial
  exact ⟨hregular, rfl, hkeys, ⟨_, hrows⟩, blocks, hblocks, hdifferences⟩

end Articulated
