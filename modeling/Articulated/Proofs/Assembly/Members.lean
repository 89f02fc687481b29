import Articulated.Assembly.Trajectory
import Articulated.Proofs.Fault.Outcome

/-!
# The factors of an assembled graph

Graphs are put together from what is built for every joint, for every fixed link and for every
group. A factor belongs to such a graph exactly if it was built for one of them.

* `mem_perJoint`, `of_mem_perJoint`: the factors of the joints.
* `mem_perFixedLink`, `of_mem_perFixedLink`: the factors of the fixed links.
* `forall_perJoint_iff`, `forall_perFixedLink_iff`: what holds of all of them.
* `forall_kinematics`: a group of factors of the joints and given values of the fixed links.
* `FactorGraph.MadeOf`: a graph is put together from other graphs.
* `slice_madeOf`, `trajectory_madeOf`: what slices and trajectories are made of.
-/

namespace Articulated

/-! ## 1. Joints and fixed links -/

section Parts

variable {α : Type} [Scalar α] [Runtime α] {r : Robot α} {g : FactorGraph α} {f : Factor α}

theorem mem_perJoint {build : Joint α → JointFrames α → Except (Fault α) (List (Factor α))}
    (h : Builder.perJoint r build = .ok g) {j : Joint α} (hj : j ∈ r.joints) :
    ∃ frames fs, r.frames j = .ok frames ∧ build j frames = .ok fs ∧ ∀ f ∈ fs, f ∈ g.factors := by
  obtain ⟨fss, hfss, rfl⟩ := map_eq_ok.1 h
  obtain ⟨fs, hfs, hbuild⟩ := exists_answer (mapM_eq_ok.1 (inParallel_eq_ok.1 hfss)) hj
  obtain ⟨frames, hframes, hfs'⟩ := bind_eq_ok.1 hbuild
  exact ⟨frames, fs, hframes, hfs', fun f hf => List.mem_flatten.2 ⟨fs, hfs, hf⟩⟩

theorem of_mem_perJoint {build : Joint α → JointFrames α → Except (Fault α) (List (Factor α))}
    (h : Builder.perJoint r build = .ok g) (hf : f ∈ g.factors) :
    ∃ j ∈ r.joints, ∃ frames fs, build j frames = .ok fs ∧ f ∈ fs := by
  obtain ⟨fss, hfss, rfl⟩ := map_eq_ok.1 h
  obtain ⟨fs, hfs, hf⟩ := List.mem_flatten.1 hf
  obtain ⟨j, hj, hbuild⟩ := exists_computation (inParallel_eq_ok.1 hfss) hfs
  obtain ⟨frames, -, hfs'⟩ := bind_eq_ok.1 hbuild
  exact ⟨j, hj, frames, fs, hfs', hf⟩

omit [Scalar α] [Runtime α] in
theorem mem_perFixedLink {build : Link α → Except (Fault α) (Factor α)}
    (h : Builder.perFixedLink r build = .ok g) {l : Link α} (hl : l ∈ r.fixedLinks) :
    ∃ f ∈ g.factors, build l = .ok f := by
  obtain ⟨fs, hfs, rfl⟩ := map_eq_ok.1 h
  exact exists_answer (mapM_eq_ok.1 hfs) hl

omit [Scalar α] [Runtime α] in
theorem of_mem_perFixedLink {build : Link α → Except (Fault α) (Factor α)}
    (h : Builder.perFixedLink r build = .ok g) (hf : f ∈ g.factors) :
    ∃ l ∈ r.fixedLinks, build l = .ok f := by
  obtain ⟨fs, hfs, rfl⟩ := map_eq_ok.1 h
  exact exists_computation hfs hf

/-- What holds of all factors of the joints holds of those of every joint. -/
theorem forall_perJoint_iff {P : Factor α → Prop}
    {build : Joint α → JointFrames α → Except (Fault α) (List (Factor α))}
    (h : Builder.perJoint r build = .ok g) :
    (∀ f ∈ g.factors, P f) ↔ ∀ j ∈ r.joints, ∃ frames fs, r.frames j = .ok frames ∧
      build j frames = .ok fs ∧ ∀ f ∈ fs, P f := by
  constructor
  · intro hP j hj
    obtain ⟨frames, fs, hframes, hbuild, hfs⟩ := mem_perJoint h hj
    exact ⟨frames, fs, hframes, hbuild, fun f hf => hP f (hfs f hf)⟩
  · intro hP f hf
    obtain ⟨fss, hfss, rfl⟩ := map_eq_ok.1 h
    obtain ⟨fs, hfs, hf⟩ := List.mem_flatten.1 hf
    obtain ⟨j, hj, hj_build⟩ := exists_computation (inParallel_eq_ok.1 hfss) hfs
    obtain ⟨frames, fs', hframes, hbuild, hP⟩ := hP j hj
    rw [answer_unique hj_build (bind_eq_ok.2 ⟨frames, hframes, hbuild⟩)] at hf
    exact hP f hf

omit [Scalar α] [Runtime α] in
/-- What holds of all factors of the fixed links holds of that of every fixed link. -/
theorem forall_perFixedLink_iff {P : Factor α → Prop}
    {build : Link α → Except (Fault α) (Factor α)} (h : Builder.perFixedLink r build = .ok g) :
    (∀ f ∈ g.factors, P f) ↔ ∀ l ∈ r.fixedLinks, ∃ f, build l = .ok f ∧ P f := by
  constructor
  · intro hP l hl
    obtain ⟨f, hf, hbuild⟩ := mem_perFixedLink h hl
    exact ⟨f, hbuild, hP f hf⟩
  · intro hP f hf
    obtain ⟨l, hl, hbuild⟩ := of_mem_perFixedLink h hf
    obtain ⟨f', hbuild', hP⟩ := hP l hl
    rwa [answer_unique hbuild hbuild']

/-- Factors of the joints, followed by given values of the fixed links. -/
theorem forall_kinematics {P : Factor α → Prop}
    {build : Joint α → JointFrames α → Except (Fault α) (List (Factor α))}
    {quantity : Link α → Variable} {value : Link α → Value α} {sigma : α}
    (h : (do
      let joints ← Builder.perJoint r build
      let fixed ← Builder.perFixedLink r fun l => do
        return .prior (← (quantity l).key) (value l) sigma
      return joints ++ fixed) = .ok g)
    (hjoint : ∀ j ∈ r.joints, ∀ frames fs, build j frames = .ok fs → ∀ f ∈ fs, P f)
    (hlink : ∀ l ∈ r.links, ∀ k, (quantity l).key (α := α) = .ok k →
      P (.prior k (value l) sigma)) : ∀ f ∈ g.factors, P f := by
  obtain ⟨joints, hjoints, h⟩ := bind_eq_ok.1 h
  obtain ⟨fixed, hfixed, rfl⟩ := map_eq_ok.1 h
  refine List.forall_mem_append.2 ⟨fun f hf => ?_, fun f hf => ?_⟩
  · obtain ⟨j, hj, frames, fs, hbuild, hf⟩ := of_mem_perJoint hjoints hf
    exact hjoint j hj frames fs hbuild f hf
  · obtain ⟨l, hl, hbuild⟩ := of_mem_perFixedLink hfixed hf
    obtain ⟨k, hk, rfl⟩ := map_eq_ok.1 hbuild
    exact hlink l (List.mem_filter.1 hl).1 k hk

end Parts

/-! ## 2. Graphs made of graphs -/

section Joins

variable {α : Type}

/-- The graph is put together from what some computations answer, and all of them succeed. -/
structure FactorGraph.MadeOf (g : FactorGraph α)
    (c : Except (Fault α) (FactorGraph α) → Prop) : Prop where
  succeeds : ∀ x, c x → ∃ part, x = .ok part ∧ ∀ f ∈ part.factors, f ∈ g.factors
  source : ∀ f ∈ g.factors, ∃ part, c (.ok part) ∧ f ∈ part.factors

namespace FactorGraph

variable {g : FactorGraph α} {parts rest : List (FactorGraph α)}
  {c d : Except (Fault α) (FactorGraph α) → Prop}

theorem MadeOf.congr (h : g.MadeOf c) (hcd : ∀ x, c x ↔ d x) : g.MadeOf d :=
  ⟨fun x hx => h.succeeds x ((hcd x).2 hx),
    fun f hf => (h.source f hf).imp fun _ hpart => ⟨(hcd _).1 hpart.1, hpart.2⟩⟩

theorem madeOf_join {β : Type} {build : β → Except (Fault α) (FactorGraph α)} {l : List β}
    (h : l.mapM build = .ok parts) :
    (join parts).MadeOf fun x => ∃ b ∈ l, x = build b := by
  constructor
  · rintro x ⟨b, hb, rfl⟩
    obtain ⟨part, hpart, hbuild⟩ := exists_answer (mapM_eq_ok.1 h) hb
    exact ⟨part, hbuild, fun f hf => List.mem_flatMap.2 ⟨part, hpart, hf⟩⟩
  · intro f hf
    obtain ⟨part, hpart, hf⟩ := List.mem_flatMap.1 hf
    obtain ⟨b, hb, hbuild⟩ := exists_computation h hpart
    exact ⟨part, ⟨b, hb, hbuild.symm⟩, hf⟩

theorem MadeOf.append (h : (join parts).MadeOf c) (h' : (join rest).MadeOf d) :
    (join (parts ++ rest)).MadeOf fun x => c x ∨ d x := by
  have hmem : ∀ {f : Factor α}, f ∈ (join (parts ++ rest)).factors ↔
      f ∈ (join parts).factors ∨ f ∈ (join rest).factors := by
    intro f
    rw [← List.mem_append]
    exact iff_of_eq (congrArg (f ∈ ·) List.flatMap_append)
  constructor
  · rintro x (hx | hx)
    · obtain ⟨part, hpart, hsub⟩ := h.succeeds x hx
      exact ⟨part, hpart, fun f hf => hmem.2 (.inl (hsub f hf))⟩
    · obtain ⟨part, hpart, hsub⟩ := h'.succeeds x hx
      exact ⟨part, hpart, fun f hf => hmem.2 (.inr (hsub f hf))⟩
  · intro f hf
    rcases hmem.1 hf with hf | hf
    · obtain ⟨part, hpart, hf⟩ := h.source f hf
      exact ⟨part, .inl hpart, hf⟩
    · obtain ⟨part, hpart, hf⟩ := h'.source f hf
      exact ⟨part, .inr hpart, hf⟩

end FactorGraph

variable [Scalar α] [Runtime α] {b : Builder α} {r : Robot α} {g : FactorGraph α}
  {gravity : Vec3 α} {planar : Option (Vec3 α)}

/-- A slice is made of the groups that are selected. -/
theorem slice_madeOf {t : Nat} (h : b.slice r t gravity planar = .ok g) :
    g.MadeOf fun x => ∃ group ∈ b.groups, x = b.group r t gravity planar group := by
  have hselected : ∀ group, group ∈ b.selected ↔ group ∈ b.groups := by
    intro group
    rw [Builder.selected, List.mem_filter, decide_eq_true_iff]
    exact and_iff_right (by cases group <;> decide)
  obtain ⟨parts, hparts, rfl⟩ := map_eq_ok.1 h
  refine (FactorGraph.madeOf_join hparts).congr fun x => ?_
  exact exists_congr fun group => and_congr_left' (hselected group)

/-- A trajectory is made of its slices and its steps. -/
theorem trajectory_madeOf {numSteps : Nat} {dt : α} {scheme : CollocationScheme}
    (h : b.trajectory r numSteps dt scheme gravity planar = .ok g) :
    g.MadeOf fun x => (∃ t ≤ numSteps, x = b.slice r t gravity planar) ∨
      ∃ t < numSteps, x = b.collocation r t dt scheme := by
  obtain ⟨slices, hslices, h⟩ := bind_eq_ok.1 h
  obtain ⟨steps, hsteps, rfl⟩ := map_eq_ok.1 h
  refine ((FactorGraph.madeOf_join (inParallel_eq_ok.1 hslices)).append
    (FactorGraph.madeOf_join hsteps)).congr fun x => ?_
  simp only [List.mem_range, Nat.lt_succ_iff]

end Joins

end Articulated
