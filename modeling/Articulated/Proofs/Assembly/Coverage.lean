import Articulated.Proofs.Assembly.Members
import Articulated.Proofs.Assembly.Quantities
import Articulated.Proofs.Assembly.Tiling
import Articulated.Proofs.Factor.Kinds

/-!
# Values at rest cover assembled graphs

Which variables a graph has is a consequence of its factors, while the values at rest are entered
by going through the links and joints. Both have the quantities of the robot. Every factor reads
quantities, and each as what it is. Every quantity is read by some factor, as long as all groups of
factors are there: the poses, twists and accelerations of a moving link by its balance and those of
a fixed link by its priors, everything else by the factors of its joint.

* `FactorGraph.Over`: the variables of a graph are the quantities of some kind.
* `FactorGraph.Over.covered`: values of these quantities at rest then belong to the graph.
* `Builder.slice_over`, `Builder.trajectory_over`, `Builder.multiPhase_over`: the three graphs.
* `Builder.rest_covers`: the values at rest belong to a graph as soon as either of them exists.
-/

namespace Articulated

/-! ## 1. Graphs over quantities -/

section Graphs

variable {α : Type}

/-- The key is that of a quantity of some kind, which has values of the kind that is read. -/
def IsQuantity (p : Variable → Prop) (e : Key × ValueKind) : Prop :=
  ∃ v, p v ∧ v.key? = some e.1 ∧ v.kind = e.2

theorem isQuantity_of_key {p : Variable → Prop} {v : Variable} {k : Key}
    (hk : (v.key : Except (Fault α) Key) = .ok k) (hv : p v) : IsQuantity p (k, v.kind) :=
  ⟨v, hv, Variable.key_eq_ok.1 hk, rfl⟩

theorem IsQuantity.mono {p q : Variable → Prop} {e : Key × ValueKind} (h : IsQuantity p e)
    (hpq : ∀ v, p v → q v) : IsQuantity q e :=
  h.imp fun v hv => ⟨hpq v hv.1, hv.2⟩

/-- The factor is one of the library, and reads quantities of some kind alone. -/
structure Factor.Within (f : Factor α) (p : Variable → Prop) : Prop where
  regular : f.IsRegular
  reads : ∀ e ∈ f.relation.reads, IsQuantity p e

theorem Factor.Within.mono {f : Factor α} {p q : Variable → Prop} (h : f.Within p)
    (hpq : ∀ v, p v → q v) : f.Within q :=
  ⟨h.regular, fun e he => (h.reads e he).mono hpq⟩

namespace FactorGraph

/-- Some factor of the graph has the quantity among its variables. -/
def Mentions (g : FactorGraph α) (v : Variable) : Prop :=
  ∃ f ∈ g.factors, ∃ k ∈ f.keys, v.key? = some k

theorem Mentions.mono {g h : FactorGraph α} {v : Variable} (hg : g.Mentions v)
    (hsub : ∀ f ∈ g.factors, f ∈ h.factors) : h.Mentions v :=
  hg.imp fun f hf => ⟨hsub f hf.1, hf.2⟩

theorem mentions_of_key {g : FactorGraph α} {f : Factor α} {v : Variable} {k : Key}
    (hf : f ∈ g.factors) (hk : (v.key : Except (Fault α) Key) = .ok k) (hmem : k ∈ f.keys) :
    g.Mentions v :=
  ⟨f, hf, k, hmem, Variable.key_eq_ok.1 hk⟩

/-- The variables of the graph are the quantities of some kind, and are read as such. -/
structure Over (g : FactorGraph α) (p : Variable → Prop) : Prop where
  within : ∀ f ∈ g.factors, f.Within p
  mentions : ∀ v, p v → g.Mentions v

variable {g : FactorGraph α} {p : Variable → Prop}

/-- What a graph is made of reads quantities of a kind, and mentions each of them somewhere. -/
theorem MadeOf.over {c : Except (Fault α) (FactorGraph α) → Prop} (h : g.MadeOf c)
    (hwithin : ∀ part, c (.ok part) → ∀ f ∈ part.factors, f.Within p)
    (hmentions : ∀ v, p v → ∃ x, c x ∧ ∀ part, x = .ok part → part.Mentions v) : g.Over p := by
  constructor
  · intro f hf
    obtain ⟨part, hpart, hf⟩ := h.source f hf
    exact hwithin part hpart f hf
  · intro v hv
    obtain ⟨x, hx, hpart⟩ := hmentions v hv
    obtain ⟨part, rfl, hsub⟩ := h.succeeds x hx
    exact (hpart part rfl).mono hsub

theorem Over.mem_keys (h : g.Over p) {k : Key} :
    k ∈ g.keys.toList ↔ ∃ v, p v ∧ v.key? = some k := by
  rw [mem_keys_iff]
  constructor
  · intro hk
    obtain ⟨f, hf, hk⟩ := hk
    have hwithin := h.within f hf
    rw [Factor.keys, ← Relation.map_fst_reads hwithin.regular.isBuiltIn] at hk
    obtain ⟨e, he, rfl⟩ := List.mem_map.1 hk
    obtain ⟨v, hv, hkey, -⟩ := hwithin.reads e he
    exact ⟨v, hv, hkey⟩
  · intro hk
    obtain ⟨v, hv, hkey⟩ := hk
    obtain ⟨f, hf, k', hk', hkey'⟩ := h.mentions v hv
    obtain rfl : k = k' := Option.some.inj (hkey.symm.trans hkey')
    exact ⟨f, hf, hk'⟩

/-- Quantities that are variables of a graph fit the keys. -/
theorem Over.fits (h : g.Over p) {v : Variable} (hv : p v) : v.fields.Fits := by
  obtain ⟨f, -, k, -, hkey⟩ := h.mentions v hv
  exact Variable.exists_key_iff.1 ⟨k, hkey⟩

end FactorGraph

variable [Scalar α]

/-- The values are those of the variables of the graph at rest, and all factors of the graph
evaluate and have linear models there. -/
structure Robot.Covered (r : Robot α) (g : FactorGraph α) (vs : Values α) : Prop where
  keys_eq : g.keys.toList = vs.keys
  restValuesOf_eq : r.restValuesOf g = .ok vs
  residual : ∀ f ∈ g.factors, ∃ rows, f.residual vs = .ok rows
  linearize : ∀ [Runtime α], ∀ f ∈ g.factors, ∀ whiten, ∃ model, f.linearize vs whiten = .ok model

/-- A quantity at rest has a value of its kind. -/
theorem Factor.Within.hasKinds {f : Factor α} {p : Variable → Prop} (h : f.Within p) {r : Robot α}
    {vs : Values α} (hvs : r.RestOf p vs) : vs.HasKinds f.relation.reads := by
  intro e he
  obtain ⟨v, hv, hkey, hkind⟩ := h.reads e he
  rw [(hvs e.1 _).2 ⟨v, hv, hkey, rfl⟩, Option.map_some, Robot.kind_restValue, hkind]

/-- **Values of quantities at rest belong to a graph over these quantities.** -/
theorem FactorGraph.Over.covered {g : FactorGraph α} {p : Variable → Prop} (h : g.Over p)
    {r : Robot α} {vs : Values α} (hvs : r.RestOf p vs) : r.Covered g vs := by
  have hkinds : ∀ f ∈ g.factors, vs.HasKinds f.relation.reads := fun f hf =>
    (h.within f hf).hasKinds hvs
  refine ⟨?_, ?_, fun f hf => ?_, fun {_} f hf whiten => ?_⟩
  · refine Key.eq_of_ascending g.keys.sorted (KeySet.ofMap vs.map).sorted fun k => ?_
    rw [h.mem_keys]
    exact hvs.mem_keys.symm
  · obtain ⟨vs', hvs', hrest⟩ := Robot.restValuesOf_spec (r := r) (g := g) fun k hk => by
      obtain ⟨v, -, hkey⟩ := h.mem_keys.1 hk
      exact ⟨v, hkey⟩
    have heq : vs' = vs := by
      refine hrest.unique hvs fun v k hkey => ?_
      constructor
      · intro hv
        obtain ⟨k', hk', hkey'⟩ := hv
        obtain ⟨w, hw, hwkey⟩ := h.mem_keys.1 hk'
        exact Variable.eq_of_key hkey' hwkey ▸ hw
      · exact fun hv => ⟨k, h.mem_keys.2 ⟨v, hv, hkey⟩, hkey⟩
    rw [hvs', heq]
  · obtain ⟨rows, hrows, -⟩ := Factor.residual_answers (h.within f hf).regular (hkinds f hf)
    exact ⟨rows, hrows⟩
  · obtain ⟨model, hmodel, -⟩ :=
      Factor.linearize_answers (h.within f hf).regular (hkinds f hf) whiten
    exact ⟨model, hmodel⟩

/-- A graph over quantities has an error wherever these have values of their kinds. -/
theorem FactorGraph.Over.exists_error [Runtime α] {g : FactorGraph α} {p : Variable → Prop}
    (h : g.Over p) {vs : Values α} (hkinds : ∀ f ∈ g.factors, vs.HasKinds f.relation.reads) :
    ∃ e, g.error vs = .ok e := by
  have hcosts := mapM_answerOr (f := (Factor.cost · vs)) 0 fun f hf => by
    obtain ⟨c, hc, -⟩ := Factor.cost_answers (h.within f hf).regular (hkinds f hf)
    exact ⟨c, hc⟩
  exact ⟨_, map_eq_ok.2 ⟨_, inParallel_eq_ok.2 hcosts, rfl⟩⟩

end Graphs

namespace Builder

/-! ## 2. What slices read -/

section Reads

variable {α : Type} [Scalar α] [Runtime α] {b : Builder α} {r : Robot α} {t : Nat}
  {gravity : Vec3 α} {planar : Option (Vec3 α)} {g : FactorGraph α} {p : Variable → Prop}

/-- Factors of the joints, followed by given values of the fixed links. -/
theorem kinematics_within
    {buildJoint : Joint α → JointFrames α → Except (Fault α) (List (Factor α))}
    {quantity : Link α → Variable} {value : Link α → Value α} {sigma : α}
    (h : (do
      let joints ← perJoint r buildJoint
      let fixed ← perFixedLink r fun l => do
        return .prior (← (quantity l).key) (value l) sigma
      return joints ++ fixed) = .ok g)
    (hjoint : ∀ j ∈ r.joints, ∀ frames fs, buildJoint j frames = .ok fs → ∀ f ∈ fs, f.Within p)
    (hquantity : ∀ l ∈ r.links, p (quantity l))
    (hkind : ∀ l, (value l).kind = (quantity l).kind) : ∀ f ∈ g.factors, f.Within p := by
  refine forall_kinematics h hjoint fun l hl k hk => ?_
  refine ⟨Factor.isRegular_isotropic (r := .prior k (value l)) trivial sigma, ?_⟩
  refine List.forall_mem_singleton.2 ?_
  rw [hkind]
  exact isQuantity_of_key hk (hquantity l hl)

section Valid

variable (hr : r.Valid)

include hr

theorem poseFactors_within (h : b.poseFactors r t = .ok g) :
    ∀ f ∈ g.factors, f.Within (r.Has t) := by
  refine kinematics_within h (fun j hj frames fs hbuild => ?_)
    (fun l hl => ⟨List.mem_map_of_mem hl, rfl⟩) fun _ => rfl
  obtain ⟨kp, hkp, hbuild⟩ := bind_eq_ok.1 hbuild
  obtain ⟨kc, hkc, hbuild⟩ := bind_eq_ok.1 hbuild
  obtain ⟨kq, hkq, rfl⟩ := map_eq_ok.1 hbuild
  refine List.forall_mem_singleton.2 ⟨⟨trivial, List.length_replicate⟩, ?_⟩
  simp only [Factor.isotropic, Relation.reads, List.forall_mem_cons]
  exact ⟨isQuantity_of_key hkp ⟨hr.parent_mem j hj, rfl⟩,
    isQuantity_of_key hkc ⟨hr.child_mem j hj, rfl⟩,
    isQuantity_of_key hkq ⟨List.mem_map_of_mem hj, rfl⟩, List.forall_mem_nil _⟩

theorem twistFactors_within (h : b.twistFactors r t = .ok g) :
    ∀ f ∈ g.factors, f.Within (r.Has t) := by
  refine kinematics_within h (fun j hj frames fs hbuild => ?_)
    (fun l hl => ⟨List.mem_map_of_mem hl, rfl⟩) fun _ => rfl
  obtain ⟨kp, hkp, hbuild⟩ := bind_eq_ok.1 hbuild
  obtain ⟨kc, hkc, hbuild⟩ := bind_eq_ok.1 hbuild
  obtain ⟨kq, hkq, hbuild⟩ := bind_eq_ok.1 hbuild
  obtain ⟨kv, hkv, rfl⟩ := map_eq_ok.1 hbuild
  refine List.forall_mem_singleton.2 ⟨⟨trivial, List.length_replicate⟩, ?_⟩
  simp only [Factor.isotropic, Relation.reads, List.forall_mem_cons]
  exact ⟨isQuantity_of_key hkp ⟨hr.parent_mem j hj, rfl⟩,
    isQuantity_of_key hkc ⟨hr.child_mem j hj, rfl⟩,
    isQuantity_of_key hkq ⟨List.mem_map_of_mem hj, rfl⟩,
    isQuantity_of_key hkv ⟨List.mem_map_of_mem hj, rfl⟩, List.forall_mem_nil _⟩

theorem accelFactors_within (h : b.accelFactors r t = .ok g) :
    ∀ f ∈ g.factors, f.Within (r.Has t) := by
  refine kinematics_within h (fun j hj frames fs hbuild => ?_)
    (fun l hl => ⟨List.mem_map_of_mem hl, rfl⟩) fun _ => rfl
  obtain ⟨kt, hkt, hbuild⟩ := bind_eq_ok.1 hbuild
  obtain ⟨kp, hkp, hbuild⟩ := bind_eq_ok.1 hbuild
  obtain ⟨kc, hkc, hbuild⟩ := bind_eq_ok.1 hbuild
  obtain ⟨kq, hkq, hbuild⟩ := bind_eq_ok.1 hbuild
  obtain ⟨kv, hkv, hbuild⟩ := bind_eq_ok.1 hbuild
  obtain ⟨ka, hka, rfl⟩ := map_eq_ok.1 hbuild
  refine List.forall_mem_singleton.2 ⟨⟨trivial, List.length_replicate⟩, ?_⟩
  simp only [Factor.isotropic, Relation.reads, List.forall_mem_cons]
  exact ⟨isQuantity_of_key hkt ⟨hr.child_mem j hj, rfl⟩,
    isQuantity_of_key hkp ⟨hr.parent_mem j hj, rfl⟩,
    isQuantity_of_key hkc ⟨hr.child_mem j hj, rfl⟩,
    isQuantity_of_key hkq ⟨List.mem_map_of_mem hj, rfl⟩,
    isQuantity_of_key hkv ⟨List.mem_map_of_mem hj, rfl⟩,
    isQuantity_of_key hka ⟨List.mem_map_of_mem hj, rfl⟩, List.forall_mem_nil _⟩

omit hr [Runtime α] in
/-- The balance of a link reads the wrenches of the joints that touch it. -/
theorem balanceFactor_within {l : Link α} {f : Factor α}
    (h : b.balanceFactor r t gravity l = .ok f) (hl : l ∈ r.links) : f.Within (r.Has t) := by
  obtain ⟨wrenches, hwrenches, h⟩ := bind_eq_ok.1 h
  obtain ⟨kp, hkp, h⟩ := bind_eq_ok.1 h
  obtain ⟨kv, hkv, h⟩ := bind_eq_ok.1 h
  obtain ⟨ka, hka, rfl⟩ := map_eq_ok.1 h
  have hmem : l.id ∈ r.links.map (·.id) := List.mem_map_of_mem hl
  refine ⟨⟨trivial, List.length_replicate⟩, ?_⟩
  simp only [Factor.isotropic, Relation.reads, List.forall_mem_cons]
  refine ⟨isQuantity_of_key hkp ⟨hmem, rfl⟩, isQuantity_of_key hkv ⟨hmem, rfl⟩,
    isQuantity_of_key hka ⟨hmem, rfl⟩, List.forall_mem_map.2 fun k hk => ?_⟩
  obtain ⟨j, hj, hkey⟩ := exists_computation hwrenches hk
  obtain ⟨hj, htouches⟩ := List.mem_filter.1 hj
  rw [Joint.touches, Bool.or_eq_true, beq_iff_eq, beq_iff_eq] at htouches
  exact isQuantity_of_key hkey ⟨⟨j, hj, htouches, rfl⟩, rfl⟩

omit hr in
theorem dynamicsFactors_within (h : b.dynamicsFactors r t gravity planar = .ok g) :
    ∀ f ∈ g.factors, f.Within (r.Has t) := by
  obtain ⟨links, hlinks, h⟩ := bind_eq_ok.1 h
  obtain ⟨joints, hjoints, rfl⟩ := map_eq_ok.1 h
  refine List.forall_mem_append.2 ⟨fun f hf => ?_, fun f hf => ?_⟩
  · obtain ⟨l, hl, hbuild⟩ := exists_computation (inParallel_eq_ok.1 hlinks) hf
    exact balanceFactor_within hbuild (List.mem_filter.1 hl).1
  · obtain ⟨j, hj, frames, fs, hbuild, hf⟩ := of_mem_perJoint hjoints hf
    obtain ⟨kp, hkp, hbuild⟩ := bind_eq_ok.1 hbuild
    obtain ⟨kc, hkc, hbuild⟩ := bind_eq_ok.1 hbuild
    obtain ⟨kq, hkq, hbuild⟩ := bind_eq_ok.1 hbuild
    obtain ⟨kt, hkt, rfl⟩ := map_eq_ok.1 hbuild
    have hjoint : j.id ∈ r.joints.map (·.id) := List.mem_map_of_mem hj
    have hparent : IsQuantity (r.Has t) (kp, .vector6) :=
      isQuantity_of_key hkp ⟨⟨j, hj, .inl rfl, rfl⟩, rfl⟩
    have hchild : IsQuantity (r.Has t) (kc, .vector6) :=
      isQuantity_of_key hkc ⟨⟨j, hj, .inr rfl, rfl⟩, rfl⟩
    simp only [List.mem_cons, List.mem_map] at hf
    rcases hf with rfl | rfl | ⟨axis, -, rfl⟩
    · refine ⟨⟨trivial, List.length_replicate⟩, ?_⟩
      simp only [Factor.isotropic, Relation.reads, List.forall_mem_cons]
      exact ⟨hparent, hchild, isQuantity_of_key hkq ⟨hjoint, rfl⟩, List.forall_mem_nil _⟩
    · refine ⟨⟨trivial, List.length_replicate⟩, ?_⟩
      simp only [Factor.isotropic, Relation.reads, List.forall_mem_cons]
      exact ⟨hchild, isQuantity_of_key hkt ⟨hjoint, rfl⟩, List.forall_mem_nil _⟩
    · exact ⟨⟨trivial, List.length_replicate⟩, List.forall_mem_singleton.2 hchild⟩

/-- **Every factor of a slice reads quantities of its time.** -/
theorem slice_within (h : b.slice r t gravity planar = .ok g) :
    ∀ f ∈ g.factors, f.Within (r.Has t) := by
  intro f hf
  obtain ⟨part, ⟨group, -, hpart⟩, hf⟩ := (slice_madeOf h).source f hf
  cases group with
  | poses => exact poseFactors_within hr hpart.symm f hf
  | twists => exact twistFactors_within hr hpart.symm f hf
  | accels => exact accelFactors_within hr hpart.symm f hf
  | dynamics => exact dynamicsFactors_within hpart.symm f hf

omit hr [Scalar α] [Runtime α] in
/-- Every factor of a step reads quantities of its start and of its end, and its duration. -/
theorem collocationWith_within {step : TimeStep α} {scheme : CollocationScheme}
    (h : b.collocationWith r t step scheme = .ok g)
    (hp : ∀ v, r.Has t v ∨ r.Has (t + 1) v → p v)
    (hstep : ∀ k ∈ Relation.stepKeys step, IsQuantity p (k, .scalar)) :
    ∀ f ∈ g.factors, f.Within p := by
  have hcollocation : ∀ {x₀ x₁ r₀ r₁ : Key} (sigma : α), IsQuantity p (x₀, .scalar) →
      IsQuantity p (x₁, .scalar) → IsQuantity p (r₀, .scalar) → IsQuantity p (r₁, .scalar) →
        (Factor.isotropic (.collocation x₀ x₁ r₀ r₁ step scheme) 1 sigma).Within p := by
    intro x₀ x₁ r₀ r₁ sigma h₀ h₁ h₂ h₃
    refine ⟨⟨trivial, List.length_replicate⟩, List.forall_mem_map.2 ?_⟩
    refine List.forall_mem_cons.2 ⟨h₀, List.forall_mem_cons.2 ⟨h₁, List.forall_mem_cons.2
      ⟨h₂, List.forall_mem_append.2 ⟨fun k hk => ?_, hstep⟩⟩⟩⟩
    cases scheme with
    | euler => exact absurd hk List.not_mem_nil
    | trapezoidal => exact List.mem_singleton.1 hk ▸ h₃
  obtain ⟨fss, hfss, rfl⟩ := map_eq_ok.1 h
  intro f hf
  obtain ⟨fs, hfs, hf⟩ := List.mem_flatten.1 hf
  obtain ⟨j, hj, hbuild⟩ := exists_computation hfss hfs
  obtain ⟨q₀, hq₀, hbuild⟩ := bind_eq_ok.1 hbuild
  obtain ⟨q₁, hq₁, hbuild⟩ := bind_eq_ok.1 hbuild
  obtain ⟨v₀, hv₀, hbuild⟩ := bind_eq_ok.1 hbuild
  obtain ⟨v₁, hv₁, hbuild⟩ := bind_eq_ok.1 hbuild
  obtain ⟨a₀, ha₀, hbuild⟩ := bind_eq_ok.1 hbuild
  obtain ⟨a₁, ha₁, rfl⟩ := map_eq_ok.1 hbuild
  have hid : j.id ∈ r.joints.map (·.id) := List.mem_map_of_mem (List.mem_mergeSort.1 hj)
  have hrate₀ : IsQuantity p (v₀, .scalar) := isQuantity_of_key hv₀ (hp _ (.inl ⟨hid, rfl⟩))
  have hrate₁ : IsQuantity p (v₁, .scalar) := isQuantity_of_key hv₁ (hp _ (.inr ⟨hid, rfl⟩))
  simp only [List.mem_cons, List.not_mem_nil, or_false] at hf
  rcases hf with rfl | rfl
  · exact hcollocation _ (isQuantity_of_key hq₀ (hp _ (.inl ⟨hid, rfl⟩)))
      (isQuantity_of_key hq₁ (hp _ (.inr ⟨hid, rfl⟩))) hrate₀ hrate₁
  · exact hcollocation _ hrate₀ hrate₁ (isQuantity_of_key ha₀ (hp _ (.inl ⟨hid, rfl⟩)))
      (isQuantity_of_key ha₁ (hp _ (.inr ⟨hid, rfl⟩)))

end Valid

end Reads

/-! ## 3. What slices mention -/

section Mentions

variable {α : Type} [Scalar α] [Runtime α] {b : Builder α} {r : Robot α} {t : Nat}
  {gravity : Vec3 α} {planar : Option (Vec3 α)} {g : FactorGraph α}

omit [Scalar α] [Runtime α] in
theorem perFixedLink_mentions {quantity : Link α → Variable} {value : Link α → Value α} {sigma : α}
    (h : perFixedLink r (fun l => do
      return .prior (← (quantity l).key) (value l) sigma) = .ok g) {l : Link α}
    (hl : l ∈ r.fixedLinks) : g.Mentions (quantity l) := by
  obtain ⟨f, hf, hbuild⟩ := mem_perFixedLink h hl
  obtain ⟨k, hk, rfl⟩ := map_eq_ok.1 hbuild
  exact FactorGraph.mentions_of_key hf hk List.mem_cons_self

/-- The poses of fixed links are given. -/
theorem poseFactors_mentions (h : b.poseFactors r t = .ok g) {l : Link α}
    (hl : l ∈ r.fixedLinks) : g.Mentions (.pose l.id t) := by
  obtain ⟨joints, -, h⟩ := bind_eq_ok.1 h
  obtain ⟨fixed, hfixed, rfl⟩ := map_eq_ok.1 h
  exact (perFixedLink_mentions hfixed hl).mono fun f hf => List.mem_append_right _ hf

/-- The twists of fixed links are given, and the rates of joints relate twists. -/
theorem twistFactors_mentions (h : b.twistFactors r t = .ok g) :
    (∀ l ∈ r.fixedLinks, g.Mentions (.twist l.id t)) ∧
      ∀ j ∈ r.joints, g.Mentions (.jointVel j.id t) := by
  obtain ⟨joints, hjoints, h⟩ := bind_eq_ok.1 h
  obtain ⟨fixed, hfixed, rfl⟩ := map_eq_ok.1 h
  refine ⟨fun l hl => ?_, fun j hj => ?_⟩
  · exact (perFixedLink_mentions hfixed hl).mono fun f hf => List.mem_append_right _ hf
  · obtain ⟨frames, fs, -, hbuild, hfs⟩ := mem_perJoint hjoints hj
    obtain ⟨kp, -, hbuild⟩ := bind_eq_ok.1 hbuild
    obtain ⟨kc, -, hbuild⟩ := bind_eq_ok.1 hbuild
    obtain ⟨kq, -, hbuild⟩ := bind_eq_ok.1 hbuild
    obtain ⟨kv, hkv, rfl⟩ := map_eq_ok.1 hbuild
    have hf := List.mem_append_left fixed.factors (hfs _ List.mem_cons_self)
    refine FactorGraph.mentions_of_key hf hkv ?_
    simp [Factor.keys, Factor.isotropic, Relation.keys]

/-- The same of accelerations. -/
theorem accelFactors_mentions (h : b.accelFactors r t = .ok g) :
    (∀ l ∈ r.fixedLinks, g.Mentions (.twistAccel l.id t)) ∧
      ∀ j ∈ r.joints, g.Mentions (.jointAccel j.id t) := by
  obtain ⟨joints, hjoints, h⟩ := bind_eq_ok.1 h
  obtain ⟨fixed, hfixed, rfl⟩ := map_eq_ok.1 h
  refine ⟨fun l hl => ?_, fun j hj => ?_⟩
  · exact (perFixedLink_mentions hfixed hl).mono fun f hf => List.mem_append_right _ hf
  · obtain ⟨frames, fs, -, hbuild, hfs⟩ := mem_perJoint hjoints hj
    obtain ⟨kt, -, hbuild⟩ := bind_eq_ok.1 hbuild
    obtain ⟨kp, -, hbuild⟩ := bind_eq_ok.1 hbuild
    obtain ⟨kc, -, hbuild⟩ := bind_eq_ok.1 hbuild
    obtain ⟨kq, -, hbuild⟩ := bind_eq_ok.1 hbuild
    obtain ⟨kv, -, hbuild⟩ := bind_eq_ok.1 hbuild
    obtain ⟨ka, hka, rfl⟩ := map_eq_ok.1 hbuild
    have hf := List.mem_append_left fixed.factors (hfs _ List.mem_cons_self)
    refine FactorGraph.mentions_of_key hf hka ?_
    simp [Factor.keys, Factor.isotropic, Relation.keys]

/-- A moving link is balanced, wherever it stands. -/
theorem dynamicsFactors_mentions_link (h : b.dynamicsFactors r t gravity planar = .ok g)
    {l : Link α} (hl : l ∈ r.movingLinks) : g.Mentions (.pose l.id t) ∧
      g.Mentions (.twist l.id t) ∧ g.Mentions (.twistAccel l.id t) := by
  obtain ⟨links, hlinks, h⟩ := bind_eq_ok.1 h
  obtain ⟨joints, -, rfl⟩ := map_eq_ok.1 h
  obtain ⟨f, hf, hbuild⟩ := exists_answer (mapM_eq_ok.1 (inParallel_eq_ok.1 hlinks)) hl
  obtain ⟨wrenches, -, hbuild⟩ := bind_eq_ok.1 hbuild
  obtain ⟨kp, hkp, hbuild⟩ := bind_eq_ok.1 hbuild
  obtain ⟨kv, hkv, hbuild⟩ := bind_eq_ok.1 hbuild
  obtain ⟨ka, hka, rfl⟩ := map_eq_ok.1 hbuild
  have hf := List.mem_append_left joints.factors hf
  exact ⟨FactorGraph.mentions_of_key hf hkp List.mem_cons_self,
    FactorGraph.mentions_of_key hf hkv (List.mem_cons_of_mem _ List.mem_cons_self),
    FactorGraph.mentions_of_key hf hka
      (List.mem_cons_of_mem _ (List.mem_cons_of_mem _ List.mem_cons_self))⟩

/-- The wrenches of a joint are related to each other, to its coordinate and to its actuation. -/
theorem dynamicsFactors_mentions_joint (h : b.dynamicsFactors r t gravity planar = .ok g)
    {j : Joint α} (hj : j ∈ r.joints) : g.Mentions (.wrench j.parent j.id t) ∧
      g.Mentions (.wrench j.child j.id t) ∧ g.Mentions (.jointAngle j.id t) ∧
      g.Mentions (.torque j.id t) := by
  obtain ⟨links, -, h⟩ := bind_eq_ok.1 h
  obtain ⟨joints, hjoints, rfl⟩ := map_eq_ok.1 h
  obtain ⟨frames, fs, -, hbuild, hfs⟩ := mem_perJoint hjoints hj
  obtain ⟨kp, hkp, hbuild⟩ := bind_eq_ok.1 hbuild
  obtain ⟨kc, hkc, hbuild⟩ := bind_eq_ok.1 hbuild
  obtain ⟨kq, hkq, hbuild⟩ := bind_eq_ok.1 hbuild
  obtain ⟨kt, hkt, rfl⟩ := map_eq_ok.1 hbuild
  have hequivalence := List.mem_append_right links (hfs _ List.mem_cons_self)
  have htorque := List.mem_append_right links
    (hfs _ (List.mem_cons_of_mem _ List.mem_cons_self))
  exact ⟨FactorGraph.mentions_of_key hequivalence hkp List.mem_cons_self,
    FactorGraph.mentions_of_key hequivalence hkc (List.mem_cons_of_mem _ List.mem_cons_self),
    FactorGraph.mentions_of_key hequivalence hkq
      (List.mem_cons_of_mem _ (List.mem_cons_of_mem _ List.mem_cons_self)),
    FactorGraph.mentions_of_key htorque hkt (List.mem_cons_of_mem _ List.mem_cons_self)⟩

/-- **The variables of a slice with all groups are the quantities of its time.** -/
theorem slice_over (hr : r.Valid) (hall : ∀ group, group ∈ b.groups)
    (h : b.slice r t gravity planar = .ok g) : g.Over (r.Has t) := by
  refine ⟨slice_within hr h, fun v hv => ?_⟩
  have hgroup : ∀ group, ∃ part, b.group r t gravity planar group = .ok part ∧
      ∀ f ∈ part.factors, f ∈ g.factors :=
    fun group => (slice_madeOf h).succeeds _ ⟨group, hall group, rfl⟩
  obtain ⟨poses, hposes, hposes_sub⟩ := hgroup .poses
  obtain ⟨twists, htwists, htwists_sub⟩ := hgroup .twists
  obtain ⟨accels, haccels, haccels_sub⟩ := hgroup .accels
  obtain ⟨dynamics, hdynamics, hdynamics_sub⟩ := hgroup .dynamics
  have hlink : ∀ l ∈ r.links, g.Mentions (.pose l.id t) ∧ g.Mentions (.twist l.id t) ∧
      g.Mentions (.twistAccel l.id t) := by
    intro l hl
    cases hfixed : l.fixed with
    | true =>
      have hl : l ∈ r.fixedLinks := List.mem_filter.2 ⟨hl, hfixed⟩
      exact ⟨(poseFactors_mentions hposes hl).mono hposes_sub,
        ((twistFactors_mentions htwists).1 l hl).mono htwists_sub,
        ((accelFactors_mentions haccels).1 l hl).mono haccels_sub⟩
    | false =>
      have hl : l ∈ r.movingLinks := List.mem_filter.2 ⟨hl, by rw [hfixed]; rfl⟩
      obtain ⟨hpose, htwist, haccel⟩ := dynamicsFactors_mentions_link hdynamics hl
      exact ⟨hpose.mono hdynamics_sub, htwist.mono hdynamics_sub, haccel.mono hdynamics_sub⟩
  cases v with
  | pose link s =>
    obtain ⟨hlinks, rfl⟩ := hv
    obtain ⟨l, hl, rfl⟩ := List.mem_map.1 hlinks
    exact (hlink l hl).1
  | twist link s =>
    obtain ⟨hlinks, rfl⟩ := hv
    obtain ⟨l, hl, rfl⟩ := List.mem_map.1 hlinks
    exact (hlink l hl).2.1
  | twistAccel link s =>
    obtain ⟨hlinks, rfl⟩ := hv
    obtain ⟨l, hl, rfl⟩ := List.mem_map.1 hlinks
    exact (hlink l hl).2.2
  | wrench link joint s =>
    obtain ⟨⟨j, hj, hends, rfl⟩, rfl⟩ := hv
    obtain ⟨hparent, hchild, -⟩ := dynamicsFactors_mentions_joint hdynamics hj
    rcases hends with rfl | rfl
    · exact hparent.mono hdynamics_sub
    · exact hchild.mono hdynamics_sub
  | torque joint s =>
    obtain ⟨hjoints, rfl⟩ := hv
    obtain ⟨j, hj, rfl⟩ := List.mem_map.1 hjoints
    exact (dynamicsFactors_mentions_joint hdynamics hj).2.2.2.mono hdynamics_sub
  | jointAngle joint s =>
    obtain ⟨hjoints, rfl⟩ := hv
    obtain ⟨j, hj, rfl⟩ := List.mem_map.1 hjoints
    exact (dynamicsFactors_mentions_joint hdynamics hj).2.2.1.mono hdynamics_sub
  | jointVel joint s =>
    obtain ⟨hjoints, rfl⟩ := hv
    obtain ⟨j, hj, rfl⟩ := List.mem_map.1 hjoints
    exact ((twistFactors_mentions htwists).2 j hj).mono htwists_sub
  | jointAccel joint s =>
    obtain ⟨hjoints, rfl⟩ := hv
    obtain ⟨j, hj, rfl⟩ := List.mem_map.1 hjoints
    exact ((accelFactors_mentions haccels).2 j hj).mono haccels_sub
  | phaseDuration p => exact hv.elim

end Mentions

/-! ## 4. Trajectories -/

section Trajectories

variable {α : Type} [Scalar α] [Runtime α] {b : Builder α} {r : Robot α} {gravity : Vec3 α}
  {planar : Option (Vec3 α)} {scheme : CollocationScheme} {g : FactorGraph α}

/-- Every factor of a trajectory reads quantities of its times. -/
theorem trajectory_within (hr : r.Valid) {numSteps : Nat} {dt : α}
    (h : b.trajectory r numSteps dt scheme gravity planar = .ok g) :
    ∀ f ∈ g.factors, f.Within (r.HasUntil numSteps 0) := by
  intro f hf
  obtain ⟨part, ⟨t, ht, hpart⟩ | ⟨t, ht, hpart⟩, hf⟩ := (trajectory_madeOf h).source f hf
  · exact (slice_within hr hpart.symm f hf).mono fun v hv => .inl ⟨t, ht, hv⟩
  · refine collocationWith_within hpart.symm (fun v hv => ?_) nofun f hf
    rcases hv with hv | hv
    · exact .inl ⟨t, Nat.le_of_lt ht, hv⟩
    · exact .inl ⟨t + 1, ht, hv⟩

/-- The variables of a trajectory are the quantities of its times. -/
theorem trajectory_over (hr : r.Valid) (hall : ∀ group, group ∈ b.groups) {numSteps : Nat} {dt : α}
    (h : b.trajectory r numSteps dt scheme gravity planar = .ok g) :
    g.Over (r.HasUntil numSteps 0) := by
  refine ⟨trajectory_within hr h, fun v hv => ?_⟩
  rcases hv with ⟨t, ht, hv⟩ | ⟨phase, hphase, -⟩
  · obtain ⟨part, hpart, hsub⟩ := (trajectory_madeOf h).succeeds _ (.inl ⟨t, ht, rfl⟩)
    exact ((slice_over hr hall hpart).mentions v hv).mono hsub
  · exact absurd hphase (Nat.not_lt_zero phase)

omit [Scalar α] [Runtime α] in
/-- The step of a phase mentions the duration of the phase, if there is a joint. -/
theorem phaseCollocation_mentions (hjoints : r.joints ≠ []) {t phase : Nat}
    (h : b.phaseCollocation r t phase scheme = .ok g) : g.Mentions (.phaseDuration phase) := by
  obtain ⟨k, hk, h⟩ := bind_eq_ok.1 h
  obtain ⟨fss, hfss, rfl⟩ := map_eq_ok.1 h
  obtain ⟨j, hj⟩ := List.exists_mem_of_ne_nil _ hjoints
  obtain ⟨fs, hfs, hbuild⟩ := exists_answer (mapM_eq_ok.1 hfss) (List.mem_mergeSort.2 hj)
  obtain ⟨q₀, -, hbuild⟩ := bind_eq_ok.1 hbuild
  obtain ⟨q₁, -, hbuild⟩ := bind_eq_ok.1 hbuild
  obtain ⟨v₀, -, hbuild⟩ := bind_eq_ok.1 hbuild
  obtain ⟨v₁, -, hbuild⟩ := bind_eq_ok.1 hbuild
  obtain ⟨a₀, -, hbuild⟩ := bind_eq_ok.1 hbuild
  obtain ⟨a₁, -, rfl⟩ := map_eq_ok.1 hbuild
  refine FactorGraph.mentions_of_key (List.mem_flatten.2 ⟨_, hfs, List.mem_cons_self⟩) hk ?_
  simp [Factor.keys, Factor.isotropic, Relation.keys, Relation.stepKeys]

/-- A trajectory over phases is made of the slices of the robots at all times, and of the steps. -/
theorem multiPhase_madeOf {robots : List (Robot α)} {phaseSteps : List Nat}
    (hphases : WellPhased robots phaseSteps none)
    (h : b.multiPhase robots phaseSteps none scheme gravity planar = .ok g) :
    g.MadeOf fun x =>
      (∃ t ≤ phaseSteps.sum, x = b.slice (robotAt robots phaseSteps t) t gravity planar) ∨
        ∃ t < phaseSteps.sum, x = b.stepAt robots phaseSteps scheme t := by
  obtain ⟨-, h⟩ := seq_eq_ok.1 h
  obtain ⟨between, hbetween, h⟩ := bind_eq_ok.1 h
  obtain ⟨own, hown, h⟩ := bind_eq_ok.1 h
  obtain ⟨steps, hsteps, rfl⟩ := map_eq_ok.1 h
  obtain ⟨-, hbetween⟩ := seq_eq_ok.1 hbetween
  refine (((FactorGraph.madeOf_join (inParallel_eq_ok.1 hown)).append
    (FactorGraph.madeOf_join (inParallel_eq_ok.1 hbetween))).append
      (FactorGraph.madeOf_join hsteps)).congr fun x => or_congr ?_ ?_
  · have htimes : ∀ t, (t ∈ (ownSlices (robots.zip phaseSteps)).map Prod.snd ∨
        t ∈ boundaryTimes phaseSteps) ↔ t ≤ phaseSteps.sum := by
      intro t
      rw [← List.mem_append, hphases.times_perm.mem_iff, List.mem_range, Nat.lt_succ_iff]
    have hlength : (boundaryTimes phaseSteps).length = robots.tail.length := by
      rw [length_boundaryTimes, List.length_tail, hphases.robots_length]
    constructor
    · rintro (⟨e, he, rfl⟩ | ⟨e, he, rfl⟩)
      · exact ⟨e.2, (htimes _).1 (.inl (List.mem_map_of_mem he)),
          by rw [hphases.ownSlices_robot he]⟩
      · exact ⟨e.2, (htimes _).1 (.inr (List.of_mem_zip he).2),
          by rw [hphases.transitions_robot he]⟩
    · rintro ⟨t, ht, rfl⟩
      rcases (htimes t).2 ht with hmem | hmem
      · obtain ⟨e, he, rfl⟩ := List.mem_map.1 hmem
        exact .inl ⟨e, he, by rw [hphases.ownSlices_robot he]⟩
      · rw [← List.map_snd_zip (Nat.le_of_eq hlength)] at hmem
        obtain ⟨e, he, rfl⟩ := List.mem_map.1 hmem
        exact .inr ⟨e, he, by rw [hphases.transitions_robot he]⟩
  · rw [phaseStarts_eq, hphases.map_fst, hphases.map_snd]
    simp only [List.mem_map, List.mem_range, exists_exists_and_eq_and, Nat.zero_add, stepAt]

omit [Scalar α] [Runtime α] in
theorem wellPhased_replicate {phaseSteps : List Nat} (hphases : phaseSteps ≠ [])
    (hsteps : 0 ∉ phaseSteps) :
    WellPhased (List.replicate phaseSteps.length r) phaseSteps none :=
  ⟨hphases, List.length_replicate, hsteps, nofun⟩

/-- The variables of a trajectory over phases are the quantities of its times, and the durations of
its phases if there is a joint to integrate. -/
theorem multiPhase_over (hr : r.Valid) (hall : ∀ group, group ∈ b.groups)
    (hjoints : r.joints ≠ []) {phaseSteps : List Nat} (hphases : phaseSteps ≠ [])
    (hsteps : 0 ∉ phaseSteps)
    (h : b.multiPhase (List.replicate phaseSteps.length r) phaseSteps none scheme gravity planar =
      .ok g) : g.Over (r.HasUntil phaseSteps.sum phaseSteps.length) := by
  have hwell := wellPhased_replicate (r := r) hphases hsteps
  have hrobot : ∀ t, robotAt (List.replicate phaseSteps.length r) phaseSteps t = r := fun t =>
    List.eq_of_mem_replicate (hwell.robotAt_mem t)
  have hmade := multiPhase_madeOf hwell h
  simp only [stepAt, hrobot] at hmade
  refine hmade.over ?_ ?_
  · rintro part (⟨t, ht, hpart⟩ | ⟨t, ht, hpart⟩) f hf
    · exact (slice_within hr hpart.symm f hf).mono fun v hv => .inl ⟨t, ht, hv⟩
    · obtain ⟨k, hk, hpart⟩ := bind_eq_ok.1 hpart.symm
      refine collocationWith_within hpart (fun v hv => ?_) ?_ f hf
      · rcases hv with hv | hv
        · exact .inl ⟨t, Nat.le_of_lt ht, hv⟩
        · exact .inl ⟨t + 1, ht, hv⟩
      · exact List.forall_mem_singleton.2
          (isQuantity_of_key hk (.inr ⟨_, phaseAt_lt hphases t, rfl⟩))
  · rintro v (⟨t, ht, hv⟩ | ⟨phase, hphase, rfl⟩)
    · exact ⟨_, .inl ⟨t, ht, rfl⟩, fun part hpart => (slice_over hr hall hpart).mentions v hv⟩
    · obtain ⟨t, ht, rfl⟩ := exists_time_of_phase hsteps hphase
      exact ⟨_, .inr ⟨t, ht, rfl⟩, fun part hpart => phaseCollocation_mentions hjoints hpart⟩

end Trajectories

/-! ## 5. Values at rest -/

section Rest

variable {α : Type} [Scalar α] [Runtime α] {b : Builder α} {r : Robot α} {t : Nat}
  {gravity : Vec3 α} {planar : Option (Vec3 α)} {scheme : CollocationScheme}

omit [Scalar α] [Runtime α] in
/-- If the quantities of a time fit, then the time does, unless there are no quantities. -/
theorem empty_or_time_le (hr : r.Valid) (hfits : ∀ v, r.Has t v → v.fields.Fits) :
    r = .empty ∨ t ≤ maxIndex := by
  obtain ⟨links, joints⟩ := r
  cases links with
  | nil =>
    cases joints with
    | nil => exact .inl rfl
    | cons j joints => exact absurd (hr.parent_mem j List.mem_cons_self) List.not_mem_nil
  | cons l links => exact .inr (hfits (.pose l.id t) ⟨List.mem_cons_self, rfl⟩).2.2

theorem slice_empty (b : Builder α) (t : Nat) (gravity : Vec3 α) (planar : Option (Vec3 α)) :
    b.slice .empty t gravity planar = b.slice .empty 0 gravity planar := by
  unfold slice
  rw [mapM_congr fun group _ => ?_]
  cases group <;> rfl

omit [Scalar α] [Runtime α] in
theorem collocation_empty (b : Builder α) (t : Nat) (dt : α) (scheme : CollocationScheme) :
    b.collocation .empty t dt scheme = .ok ⟨[]⟩ := by
  rw [collocation, collocationWith, Robot.sortedJoints, Robot.empty, List.mergeSort_nil]
  rfl

theorem slice_succeeds (hr : r.Valid) (hfits : ∀ v, r.Has t v → v.fields.Fits) :
    ∃ g, b.slice r t gravity planar = .ok g := by
  rcases empty_or_time_le hr hfits with rfl | ht
  · rw [slice_empty]
    exact (slice_needsKeys hr gravity planar).succeeds (Nat.zero_le _)
  · exact (slice_needsKeys hr gravity planar).succeeds ht

theorem trajectory_succeeds (hr : r.Valid) {numSteps : Nat} {dt : α}
    (hfits : ∀ v, r.HasUntil numSteps 0 v → v.fields.Fits) :
    ∃ g, b.trajectory r numSteps dt scheme gravity planar = .ok g := by
  have hslices := mapM_answerOr (f := fun t => b.slice r t gravity planar) .empty
    (l := List.range (numSteps + 1)) fun t ht =>
      slice_succeeds hr fun v hv => hfits v (.inl ⟨t, Nat.le_of_lt_succ (List.mem_range.1 ht), hv⟩)
  have hsteps := mapM_answerOr (f := fun t => b.collocation r t dt scheme) .empty
    (l := List.range numSteps) fun t ht => by
      have hnext : ∀ v, r.Has (t + 1) v → v.fields.Fits := fun v hv =>
        hfits v (.inl ⟨t + 1, List.mem_range.1 ht, hv⟩)
      rcases empty_or_time_le hr hnext with rfl | hle
      · exact ⟨_, collocation_empty b t dt scheme⟩
      · exact (collocationWith_needsKeys hr _ scheme).succeeds hle
  exact ⟨_, bind_eq_ok.2 ⟨_, inParallel_eq_ok.2 hslices, map_eq_ok.2 ⟨_, hsteps, rfl⟩⟩⟩

/-- A trajectory of a valid robot is assembled if its end fits the keys. -/
theorem trajectory_succeeds_of_le (hr : r.Valid) {numSteps : Nat} (hle : numSteps ≤ maxIndex)
    (dt : α) : ∃ g, b.trajectory r numSteps dt scheme gravity planar = .ok g := by
  refine trajectory_succeeds hr fun v hv => ?_
  rcases hv with ⟨t, ht, hv⟩ | ⟨phase, hphase, -⟩
  · exact hr.fits (Nat.le_trans ht hle) hv
  · exact absurd hphase (Nat.not_lt_zero phase)

omit [Runtime α] in
/-- A graph over quantities that is assembled if they fit, and their values at rest. -/
theorem matching_covered {p : Variable → Prop} {x : Except (Fault α) (FactorGraph α)}
    {y : Except (Fault α) (Values α)} (hover : ∀ g, x = .ok g → g.Over p)
    (hsucceeds : (∀ v, p v → v.fields.Fits) → ∃ g, x = .ok g)
    (hrest : (∀ vs, y = .ok vs → r.RestOf p vs) ∧
      ((∃ vs, y = .ok vs) ↔ ∀ v, p v → v.fields.Fits)) : Matching r.Covered x y := by
  refine .of_answers ⟨fun hx => ?_, fun hy => hsucceeds (hrest.2.1 hy)⟩ fun g vs hg hvs =>
    (hover g hg).covered (hrest.1 vs hvs)
  obtain ⟨g, hg⟩ := hx
  exact hrest.2.2 fun v hv => (hover g hg).fits hv

end Rest

/-- **Values at rest and assembled graphs.** With all groups of factors, a slice of a valid robot is
assembled exactly if its values at rest exist, and these then are the values of the variables of
the graph, and all factors evaluate and have linear models there. The same holds of trajectories,
and of trajectories over phases if the robot of all phases has a joint. -/
theorem rest_covers {α : Type} [Scalar α] [Runtime α] {b : Builder α} {r : Robot α}
    (hr : r.check = .ok ()) (hall : ∀ group, group ∈ b.groups) (gravity : Vec3 α)
    (planar : Option (Vec3 α)) :
    (∀ t, Matching r.Covered (b.slice r t gravity planar) (r.restSlice t) ∧
      (t ≤ maxIndex → ∃ g, b.slice r t gravity planar = .ok g)) ∧
    (∀ numSteps dt scheme,
      Matching r.Covered (b.trajectory r numSteps dt scheme gravity planar)
        (r.restTrajectory numSteps 0) ∧
      (numSteps ≤ maxIndex →
        ∃ g, b.trajectory r numSteps dt scheme gravity planar = .ok g)) ∧
    ∀ phaseSteps scheme, r.joints ≠ [] → phaseSteps ≠ [] → 0 ∉ phaseSteps →
      Matching r.Covered
        (b.multiPhase (List.replicate phaseSteps.length r) phaseSteps none scheme gravity planar)
        (r.restTrajectory phaseSteps.sum phaseSteps.length) ∧
      (phaseSteps.sum ≤ maxIndex → ∃ g, b.multiPhase (List.replicate phaseSteps.length r)
        phaseSteps none scheme gravity planar = .ok g) := by
  have hvalid : r.Valid := Robot.check_eq_ok_iff.1 hr
  have hsucceeds : ∀ phaseSteps scheme, phaseSteps ≠ [] → 0 ∉ phaseSteps →
      phaseSteps.sum ≤ maxIndex → ∃ g, b.multiPhase (List.replicate phaseSteps.length r)
        phaseSteps none scheme gravity planar = .ok g := by
    intro phaseSteps scheme hphases hsteps hle
    refine (multiPhase_needsKeys (fun r' hr' => ?_) (wellPhased_replicate hphases hsteps)).succeeds
      hle
    exact List.eq_of_mem_replicate hr' ▸ hvalid
  refine ⟨fun t => ⟨?_, fun ht => ?_⟩, fun numSteps dt scheme => ⟨?_, fun hle => ?_⟩,
    fun phaseSteps scheme hjoints hphases hsteps => ⟨?_, fun hle => ?_⟩⟩
  · exact matching_covered (fun g => slice_over hvalid hall) (slice_succeeds hvalid)
      (hvalid.restSlice_spec t)
  · exact (slice_needsKeys hvalid gravity planar).succeeds ht
  · exact matching_covered (fun g => trajectory_over hvalid hall) (trajectory_succeeds hvalid)
      (hvalid.restTrajectory_spec numSteps 0)
  · exact trajectory_succeeds_of_le hvalid hle dt
  · refine matching_covered (fun g => multiPhase_over hvalid hall hjoints hphases hsteps)
      (fun hfits => ?_) (hvalid.restTrajectory_spec _ _)
    have hend : ∀ v, r.Has phaseSteps.sum v → v.fields.Fits := fun v hv =>
      hfits v (.inl ⟨_, Nat.le_refl _, hv⟩)
    rcases empty_or_time_le hvalid hend with rfl | hle
    · exact absurd rfl hjoints
    · exact hsucceeds _ scheme hphases hsteps hle
  · exact hsucceeds _ scheme hphases hsteps hle

/-- An arm in two phases, of one step and of two. -/
theorem rest_covers_twoLinkArm :
    let r : Robot Float := .twoLinkArm
    let b : Builder Float := ofSettings .default
    r.check = .ok () ∧ (∀ group, group ∈ b.groups) ∧ r.joints ≠ [] ∧ [1, 2] ≠ [] ∧ 0 ∉ [1, 2] ∧
      [1, 2].sum ≤ maxIndex ∧
      ∃ g vs, b.multiPhase [r, r] [1, 2] none .euler 0 none = .ok g ∧
        r.restTrajectory 3 2 = .ok vs ∧ r.Covered g vs := by
  intro r b
  have hr : r.check = .ok () := rfl
  have hall : ∀ group, group ∈ b.groups := by
    intro group
    cases group <;> decide
  have hjoints : r.joints ≠ [] := List.cons_ne_nil _ _
  have hfits : [1, 2].sum ≤ maxIndex := by decide
  obtain ⟨hmatching, hsucceeds⟩ := (rest_covers hr hall 0 none).2.2 [1, 2] .euler hjoints
    (List.cons_ne_nil _ _) (by decide)
  obtain ⟨g, hg⟩ := hsucceeds hfits
  obtain ⟨vs, hvs, hcovered⟩ := hmatching.answer hg
  exact ⟨hr, hall, hjoints, List.cons_ne_nil _ _, by decide, hfits, g, vs, hg, hvs, hcovered⟩

end Builder

end Articulated
