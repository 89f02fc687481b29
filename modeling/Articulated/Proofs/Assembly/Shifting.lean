import Articulated.Proofs.Assembly.Coverage
import Articulated.Proofs.Factor.Renaming
import Articulated.Robot.Model

/-!
# Slices at different times

The slice of a robot at a time is the slice at any other time with the variables renamed: where a
key has the one time index, it gets the other one. Every factor of a slice reads quantities of its
time alone, so slices at different times have no variable in common.

* `Variable.atTime`, `Key.atTime`: a quantity at another time.
* `Carries`: where a computation succeeds, another one does, and answers the same up to renaming.
* `Builder.slice_carries`: each group of factors, and the slice.
* `Builder.slice_shifted`: slices are copies of each other.
-/

namespace Articulated

/-! ## 1. Quantities at another time -/

/-- The quantity at another time; a duration has no time. -/
def Variable.atTime (v : Variable) (t : Nat) : Variable :=
  match v with
  | pose link _ => pose link t
  | twist link _ => twist link t
  | twistAccel link _ => twistAccel link t
  | wrench link joint _ => wrench link joint t
  | torque joint _ => torque joint t
  | jointAngle joint _ => jointAngle joint t
  | jointVel joint _ => jointVel joint t
  | jointAccel joint _ => jointAccel joint t
  | phaseDuration phase => phaseDuration phase

/-- The key of the same quantity at another time; a key that stands for no quantity is kept. -/
def Key.atTime (k : Key) (t : Nat) : Key :=
  match k.variable? with
  | some v => (v.atTime t).key?.getD k
  | none => k

namespace Variable

variable {v w : Variable} {k : Key} {s t : Nat}

theorem fits_atTime (hv : v.fields.Fits) (ht : t ≤ maxIndex) : (v.atTime t).fields.Fits := by
  cases v with
  | phaseDuration phase => exact hv
  | pose | twist | twistAccel | wrench | torque | jointAngle | jointVel | jointAccel =>
    exact ⟨hv.1, hv.2.1, ht⟩

/-- Another time is written into the key. -/
theorem key?_atTime (hk : v.key? = some k) (ht : t ≤ maxIndex) :
    (v.atTime t).key? = some (k.atTime t) := by
  obtain ⟨k', hk'⟩ := exists_key_iff.2 (fits_atTime (key?_eq_some_iff.1 hk).1 ht)
  unfold Key.atTime
  rw [decode_of_key hk]
  simp only [hk', Option.getD_some]

/-- The other time and the time before determine the quantity. -/
theorem eq_of_atTime (hv : v.time? = some s) (hw : w.time? = some s)
    (h : v.atTime t = w.atTime t) : v = w := by
  have hback : ∀ {u : Variable}, u.time? = some s → (u.atTime t).atTime s = u := by
    intro u hu
    cases u with
    | phaseDuration phase => cases hu
    | pose | twist | twistAccel | wrench | torque | jointAngle | jointVel | jointAccel =>
      obtain rfl := Option.some.inj hu
      rfl
  rw [← hback hv, h, hback hw]

end Variable

theorem Robot.Has.time_eq {α : Type} {r : Robot α} {t : Nat} : ∀ {v : Variable}, r.Has t v →
    v.time? = some t
  | .pose .., h | .twist .., h | .twistAccel .., h | .wrench .., h | .torque .., h
  | .jointAngle .., h | .jointVel .., h | .jointAccel .., h => congrArg some h.2
  | .phaseDuration _, h => h.elim

/-! ## 2. Computations at another time -/

section Computations

variable {α β γ δ ζ η : Type}

/-- If the first computation succeeds, then so does the second one, with the answer that is made of
the first one. -/
def Carries (φ : β → γ) (x : Except (Fault α) β) (y : Except (Fault α) γ) : Prop :=
  ∀ b, x = .ok b → y = .ok (φ b)

namespace Carries

variable {φ : β → γ} {ψ : δ → ζ} {x : Except (Fault α) β} {y : Except (Fault α) γ}

theorem pure {b : β} {c : γ} (h : φ b = c) :
    Carries φ (Pure.pure b : Except (Fault α) β) (Pure.pure c) := by
  intro b' hb
  obtain rfl := pure_eq_ok.1 hb
  exact congrArg Except.ok h.symm

theorem bind {f : β → Except (Fault α) δ} {g : γ → Except (Fault α) ζ} (h : Carries φ x y)
    (hfg : ∀ b, Carries ψ (f b) (g (φ b))) : Carries ψ (x >>= f) (y >>= g) := by
  intro d hd
  obtain ⟨b, hb, hd⟩ := bind_eq_ok.1 hd
  exact bind_eq_ok.2 ⟨φ b, h b hb, hfg b d hd⟩

/-- Answers that do not change. -/
theorem refl (x : Except (Fault α) β) : Carries id x x := fun _ h => h

theorem mapM {f : η → Except (Fault α) β} {g : η → Except (Fault α) γ} :
    ∀ {l : List η}, (∀ b ∈ l, Carries φ (f b) (g b)) → Carries (List.map φ) (l.mapM f) (l.mapM g)
  | [], _ => pure rfl
  | b :: l, h => by
    rw [List.mapM_cons, List.mapM_cons]
    refine (h b List.mem_cons_self).bind fun c => ?_
    exact (mapM fun b' hb' => h b' (List.mem_cons_of_mem b hb')).bind fun cs => pure rfl

theorem inParallel [Runtime α] {f : η → Except (Fault α) β} {g : η → Except (Fault α) γ}
    {l : List η} (h : ∀ b ∈ l, Carries φ (f b) (g b)) :
    Carries (List.map φ) (inParallel l f) (inParallel l g) :=
  fun bs hbs => inParallel_eq_ok.2 (mapM h bs (inParallel_eq_ok.1 hbs))

/-- A key at another time. -/
theorem key {v : Variable} {t : Nat} (ht : t ≤ maxIndex) :
    Carries (·.atTime t) (v.key : Except (Fault α) Key) (v.atTime t).key := by
  intro k hk
  exact Variable.key_eq_ok.2 (Variable.key?_atTime (Variable.key_eq_ok.1 hk) ht)

/-- What is made of a key, and of the same key at another time. -/
theorem bindKey {v : Variable} {t : Nat} {f : Key → Except (Fault α) δ}
    {g : Key → Except (Fault α) ζ} (ht : t ≤ maxIndex)
    (hfg : ∀ k, Carries ψ (f k) (g (k.atTime t))) :
    Carries ψ (v.key >>= f) ((v.atTime t).key >>= g) := (key ht).bind hfg

end Carries

end Computations

/-! ## 3. Slices -/

namespace Builder

section Slices

variable {α : Type} [Scalar α] [Runtime α] {b : Builder α} {r : Robot α} {s t : Nat}

omit [Scalar α] [Runtime α] in
theorem rename_append (ρ : Key → Key) (g h : FactorGraph α) :
    (g ++ h).rename ρ = g.rename ρ ++ h.rename ρ :=
  congrArg FactorGraph.mk List.map_append

omit [Scalar α] [Runtime α] in
theorem rename_flatten (ρ : Key → Key) (fss : List (List (Factor α))) :
    FactorGraph.rename ρ ⟨fss.flatten⟩ = ⟨(fss.map (List.map (Factor.rename ρ))).flatten⟩ :=
  congrArg FactorGraph.mk List.map_flatten

theorem perJoint_carries {ρ : Key → Key}
    {build build' : Joint α → JointFrames α → Except (Fault α) (List (Factor α))}
    (h : ∀ j frames, Carries (List.map (Factor.rename ρ)) (build j frames) (build' j frames)) :
    Carries (FactorGraph.rename ρ) (perJoint r build) (perJoint r build') :=
  Carries.bind (Carries.inParallel fun j _ => (Carries.refl _).bind fun frames => h j frames)
    fun fss => .pure (rename_flatten ρ fss)

omit [Scalar α] [Runtime α] in
theorem perFixedLink_carries {quantity quantity' : Link α → Variable} {value : Link α → Value α}
    {sigma : α} (hquantity : ∀ l, quantity' l = (quantity l).atTime t) (ht : t ≤ maxIndex) :
    Carries (FactorGraph.rename (·.atTime t))
      (perFixedLink r fun l => do return .prior (← (quantity l).key) (value l) sigma)
      (perFixedLink r fun l => do return .prior (← (quantity' l).key) (value l) sigma) := by
  refine Carries.bind (Carries.mapM (φ := Factor.rename (·.atTime t)) fun l _ => ?_) fun fs =>
    .pure rfl
  rw [hquantity]
  exact (Carries.key ht).bind fun k => .pure rfl

variable (ht : t ≤ maxIndex)

include ht

theorem poseFactors_carries :
    Carries (FactorGraph.rename (·.atTime t)) (b.poseFactors r s) (b.poseFactors r t) := by
  refine (perJoint_carries fun j frames => ?_).bind fun joints =>
    (perFixedLink_carries (fun _ => rfl) ht).bind fun fixed => .pure (rename_append _ joints fixed)
  exact .bindKey ht fun _ => .bindKey ht fun _ => .bindKey ht fun _ => .pure rfl

theorem twistFactors_carries :
    Carries (FactorGraph.rename (·.atTime t)) (b.twistFactors r s) (b.twistFactors r t) := by
  refine (perJoint_carries fun j frames => ?_).bind fun joints =>
    (perFixedLink_carries (fun _ => rfl) ht).bind fun fixed => .pure (rename_append _ joints fixed)
  exact .bindKey ht fun _ => .bindKey ht fun _ => .bindKey ht fun _ => .bindKey ht fun _ =>
    .pure rfl

theorem accelFactors_carries :
    Carries (FactorGraph.rename (·.atTime t)) (b.accelFactors r s) (b.accelFactors r t) := by
  refine (perJoint_carries fun j frames => ?_).bind fun joints =>
    (perFixedLink_carries (fun _ => rfl) ht).bind fun fixed => .pure (rename_append _ joints fixed)
  exact .bindKey ht fun _ => .bindKey ht fun _ => .bindKey ht fun _ => .bindKey ht fun _ =>
    .bindKey ht fun _ => .bindKey ht fun _ => .pure rfl

omit [Runtime α] in
theorem balanceFactor_carries (gravity : Vec3 α) (l : Link α) :
    Carries (Factor.rename (·.atTime t)) (b.balanceFactor r s gravity l)
      (b.balanceFactor r t gravity l) :=
  (Carries.mapM fun _ _ => Carries.key ht).bind fun _ =>
    .bindKey ht fun _ => .bindKey ht fun _ => .bindKey ht fun _ => .pure rfl

omit [Runtime α] in
theorem wrenchFactors_carries (planar : Option (Vec3 α)) (j : Joint α) (frames : JointFrames α) :
    Carries (List.map (Factor.rename (·.atTime t))) (b.wrenchFactors s planar j frames)
      (b.wrenchFactors t planar j frames) :=
  .bindKey ht fun _ => .bindKey ht fun _ => .bindKey ht fun _ => .bindKey ht fun _ =>
    .pure (by cases planar <;> rfl)

theorem dynamicsFactors_carries (gravity : Vec3 α) (planar : Option (Vec3 α)) :
    Carries (FactorGraph.rename (·.atTime t)) (b.dynamicsFactors r s gravity planar)
      (b.dynamicsFactors r t gravity planar) :=
  (Carries.inParallel fun l _ => balanceFactor_carries ht gravity l).bind fun links =>
    (perJoint_carries fun j frames => wrenchFactors_carries ht planar j frames).bind fun joints =>
      .pure (rename_append _ ⟨links⟩ joints)

/-- **The slice at another time has the factors of the slice, renamed**, in the same order. -/
theorem slice_carries (gravity : Vec3 α) (planar : Option (Vec3 α)) :
    Carries (FactorGraph.rename (·.atTime t)) (b.slice r s gravity planar)
      (b.slice r t gravity planar) := by
  refine Carries.bind (Carries.mapM (φ := FactorGraph.rename (·.atTime t)) fun group _ => ?_)
    fun parts => .pure ?_
  · cases group with
    | poses => exact poseFactors_carries ht
    | twists => exact twistFactors_carries ht
    | accels => exact accelFactors_carries ht
    | dynamics => exact dynamicsFactors_carries ht gravity planar
  · refine congrArg FactorGraph.mk ?_
    rw [FactorGraph.join, List.map_flatMap, List.flatMap_map]
    rfl

end Slices

/-! ## 4. Keys of slices -/

section Keys

variable {α : Type} [Scalar α] [Runtime α] {b : Builder α} {r : Robot α} {t : Nat}
  {gravity : Vec3 α} {planar : Option (Vec3 α)} {g : FactorGraph α} {k : Key}

/-- Every key of a slice is that of a quantity of its time. -/
theorem slice_key_time (hr : r.Valid) (h : b.slice r t gravity planar = .ok g)
    (hk : k ∈ g.keys.toList) : ∃ v : Variable, v.key? = some k ∧ v.time? = some t := by
  obtain ⟨f, hf, hk⟩ := FactorGraph.mem_keys_iff.1 hk
  have hwithin := slice_within hr h f hf
  rw [Factor.keys, ← Relation.map_fst_reads hwithin.regular.isBuiltIn] at hk
  obtain ⟨e, he, rfl⟩ := List.mem_map.1 hk
  obtain ⟨v, hv, hkey, -⟩ := hwithin.reads e he
  exact ⟨v, hkey, hv.time_eq⟩

/-- Distinct keys of a slice stay distinct at another time. -/
theorem atTime_injOn (hr : r.Valid) (h : b.slice r t gravity planar = .ok g) {t' : Nat}
    (ht' : t' ≤ maxIndex) : ∀ k ∈ g.keys.toList, ∀ q ∈ g.keys.toList,
      k.atTime t' = q.atTime t' → k = q := by
  intro k hk q hq heq
  obtain ⟨v, hv, hvt⟩ := slice_key_time hr h hk
  obtain ⟨w, hw, hwt⟩ := slice_key_time hr h hq
  have hshifted : v.atTime t' = w.atTime t' :=
    Variable.eq_of_key (Variable.key?_atTime hv ht') (heq ▸ Variable.key?_atTime hw ht')
  obtain rfl := Variable.eq_of_atTime hvt hwt hshifted
  exact Option.some.inj (hv.symm.trans hw)

end Keys

/-- **Slices are copies of each other at other times.** At two times that fit the keys, a valid
robot has a slice each. Every key of the first slice is that of a variable of its time, and the
second slice is the first one with the other time in every key. At an assignment, and at one with
the same values at the other time, such as the renamed assignment, corresponding factors have the
same residual and the same Jacobian blocks, or fail to evaluate for the same reason. The slices of
two different times have no key in common. -/
theorem slice_shifted {α : Type} [Scalar α] [Runtime α] {r : Robot α} (hr : r.check = .ok ())
    (b : Builder α) (gravity : Vec3 α) (planar : Option (Vec3 α)) {t t' : Nat} (ht : t ≤ maxIndex)
    (ht' : t' ≤ maxIndex) :
    ∃ g, b.slice r t gravity planar = .ok g ∧
      b.slice r t' gravity planar = .ok (g.rename (·.atTime t')) ∧
      (∀ k ∈ g.keys.toList, ∃ v, k.variable? = some v ∧ v.time? = some t ∧
        (v.atTime t').key? = some (k.atTime t')) ∧
      (∀ k, k ∈ (g.rename (·.atTime t')).keys.toList ↔ ∃ q ∈ g.keys.toList, q.atTime t' = k) ∧
      (∀ vs vs', Values.CarriedBy (·.atTime t') g.keys.toList vs vs' → ∀ f ∈ g.factors,
        (f.rename (·.atTime t')).residual vs' =
            (f.residual vs).mapError (Fault.rename (·.atTime t')) ∧
          (f.rename (·.atTime t')).blocks vs' =
            (f.blocks vs).mapError (Fault.rename (·.atTime t'))) ∧
      (∀ vs : Values α, (∀ k ∈ vs.keys, k ∈ g.keys.toList) →
        Values.CarriedBy (·.atTime t') g.keys.toList vs (vs.rename (·.atTime t'))) ∧
      (t ≠ t' → ∀ k ∈ g.keys.toList, k ∉ (g.rename (·.atTime t')).keys.toList) := by
  have hvalid : r.Valid := Robot.check_eq_ok_iff.1 hr
  obtain ⟨g, hg⟩ := (slice_needsKeys (b := b) hvalid gravity planar).succeeds ht
  have hg' := slice_carries ht' gravity planar g hg
  have hbuiltIn : ∀ f ∈ g.factors, f.relation.IsBuiltIn := fun f hf =>
    (slice_within hvalid hg f hf).regular.isBuiltIn
  have hinj := atTime_injOn hvalid hg ht'
  refine ⟨g, hg, hg', fun k hk => ?_, fun k => FactorGraph.mem_keys_rename hbuiltIn,
    fun vs vs' hcarried f hf => ⟨?_, ?_⟩, fun vs hvs => Values.carriedBy_rename hinj hvs,
    fun hne k hk hk' => ?_⟩
  · obtain ⟨v, hv, hvt⟩ := slice_key_time hvalid hg hk
    exact ⟨v, Variable.decode_of_key hv, hvt, Variable.key?_atTime hv ht'⟩
  · exact Factor.residual_rename (hbuiltIn f hf)
      (hcarried.mono fun _ => FactorGraph.mem_keys hf)
  · exact Factor.blocks_rename (hbuiltIn f hf) (hcarried.mono fun _ => FactorGraph.mem_keys hf)
      fun k hk q hq => hinj k (FactorGraph.mem_keys hf hk) q (FactorGraph.mem_keys hf hq)
  · obtain ⟨v, hv, hvt⟩ := slice_key_time hvalid hg hk
    obtain ⟨w, hw, hwt⟩ := slice_key_time hvalid hg' hk'
    obtain rfl := Variable.eq_of_key hv hw
    exact hne (Option.some.inj (hvt.symm.trans hwt))

/-- The arm at the times three and seven. -/
theorem slice_shifted_twoLinkArm :
    let r : Robot Float := .twoLinkArm
    let b : Builder Float := ofSettings .default
    r.check = .ok () ∧ 3 ≤ maxIndex ∧ 7 ≤ maxIndex ∧ 3 ≠ 7 ∧
      ∃ g, b.slice r 3 0 none = .ok g ∧ b.slice r 7 0 none = .ok (g.rename (·.atTime 7)) ∧
        ∀ k ∈ g.keys.toList, k ∉ (g.rename (·.atTime 7)).keys.toList := by
  intro r b
  have hr : r.check = .ok () := rfl
  obtain ⟨g, hg, hg', -, -, -, -, hapart⟩ :=
    slice_shifted hr b 0 none (show 3 ≤ maxIndex by decide) (show 7 ≤ maxIndex by decide)
  exact ⟨hr, by decide, by decide, by decide, g, hg, hg', hapart (by decide)⟩

end Builder

end Articulated
