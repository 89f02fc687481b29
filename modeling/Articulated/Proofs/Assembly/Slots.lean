import Articulated.Proofs.Assembly.Coverage

/-!
# The slots of an assembled graph

Which factors a graph has, and over which quantities, is read off the robot before any factor is
built: a slot is a kind of factor together with the quantities that it relates, in order. The
factors of the graph fill its slots one by one.

* `Factor.Fills`: the factor is of the kind of the slot, and its keys are those of the quantities.
* `Builder.poseSlots`, `Builder.poseFactors_fill`: the slots of the poses of a time.
* `Builder.dynamicsSlots`, `Builder.dynamicsFactors_fill`: the slots of the dynamics of a time.
-/

namespace Articulated

/-! ## 1. Slots -/

/-- A kind of factor with the quantities that it relates, in order. -/
structure Slot where
  kind : String
  quantities : List Variable

section Fills

variable {α : Type} {f : Factor α} {s : Slot} {v : Variable} {k : Key}

/-- The factor is of the kind of the slot, and its keys are those of the quantities. -/
structure Factor.Fills (f : Factor α) (s : Slot) : Prop where
  name_eq : f.name = s.kind
  keys : List.Forall₂ (fun v k => v.key? = some k) s.quantities f.keys

/-- Keys stand for the quantities that they are the keys of: they occur as often. -/
theorem count_keys {vs : List Variable} {ks : List Key}
    (h : List.Forall₂ (fun v k => v.key? = some k) vs ks) (hk : v.key? = some k) :
    ks.count k = vs.count v := by
  induction h with
  | nil => rfl
  | @cons w q vs ks hq _ ih =>
    have hiff : (q == k) = (w == v) := by
      rw [Bool.eq_iff_iff, beq_iff_eq, beq_iff_eq]
      constructor
      · rintro rfl
        exact Variable.eq_of_key hq hk
      · rintro rfl
        exact Option.some.inj (hq.symm.trans hk)
    rw [List.count_cons, List.count_cons, ih, hiff]

theorem Factor.Fills.count_eq (h : f.Fills s) (hk : v.key? = some k) :
    f.keys.count k = s.quantities.count v := count_keys h.keys hk

theorem Factor.Fills.mem_iff (h : f.Fills s) (hk : v.key? = some k) :
    k ∈ f.keys ↔ v ∈ s.quantities := by
  rw [← List.count_pos_iff, h.count_eq hk, List.count_pos_iff]

theorem Factor.Fills.exists_of_mem (h : f.Fills s) (hk : k ∈ f.keys) :
    ∃ v ∈ s.quantities, v.key? = some k := exists_answer h.keys.flip hk

end Fills

/-! ## 2. Slots of the parts of a robot -/

theorem filter_flatMap_eq_nil {β γ : Type} {g : β → List γ} {p : γ → Bool} {l : List β}
    (h : ∀ b ∈ l, (g b).filter p = []) : (l.flatMap g).filter p = [] := by
  rw [List.filter_flatMap]
  exact List.flatMap_eq_nil_iff.2 h

/-- If one part of a list alone makes elements with a property, these are all of them. Parts are
told apart by an id. -/
theorem filter_flatMap_of_one {β γ δ : Type} {f : β → δ} {g : β → List γ} {p : γ → Bool} :
    ∀ {l : List β}, (l.map f).Nodup → ∀ {b : β}, b ∈ l →
      (∀ c ∈ l, f c ≠ f b → (g c).filter p = []) → (l.flatMap g).filter p = (g b).filter p
  | c :: l, hl, b, hb, hother => by
    obtain ⟨hc, hl⟩ := List.nodup_cons.1 hl
    rw [List.flatMap_cons, List.filter_append]
    rcases List.mem_cons.1 hb with rfl | hb
    · rw [filter_flatMap_eq_nil fun d hd => hother d (List.mem_cons_of_mem _ hd) fun heq =>
        hc (heq ▸ List.mem_map_of_mem hd), List.append_nil]
    · have hne : f c ≠ f b := fun heq => hc (heq ▸ List.mem_map_of_mem hb)
      rw [hother c List.mem_cons_self hne, List.nil_append]
      exact filter_flatMap_of_one hl hb fun d hd => hother d (List.mem_cons_of_mem _ hd)

section Parts

variable {α : Type} [Scalar α] [Runtime α] {r : Robot α} {g : FactorGraph α}

theorem perJoint_fill {build : Joint α → JointFrames α → Except (Fault α) (List (Factor α))}
    {slots : Joint α → List Slot} (h : Builder.perJoint r build = .ok g)
    (hbuild : ∀ j frames fs, build j frames = .ok fs →
      List.Forall₂ (fun s f => f.Fills s) (slots j) fs) :
    List.Forall₂ (fun s f => f.Fills s) (r.joints.flatMap slots) g.factors := by
  obtain ⟨fss, hfss, rfl⟩ := map_eq_ok.1 h
  rw [List.flatMap_def]
  have hbuilds := mapM_eq_ok.1 (inParallel_eq_ok.1 hfss)
  refine List.rel_flatten (List.forall₂_map_left_iff.2 (hbuilds.imp fun j fs hfs => ?_))
  obtain ⟨frames, -, hfs⟩ := bind_eq_ok.1 hfs
  exact hbuild j frames fs hfs

omit [Scalar α] [Runtime α] in
theorem perFixedLink_fill {build : Link α → Except (Fault α) (Factor α)} {slot : Link α → Slot}
    (h : Builder.perFixedLink r build = .ok g)
    (hbuild : ∀ l f, build l = .ok f → f.Fills (slot l)) :
    List.Forall₂ (fun s f => f.Fills s) (r.fixedLinks.map slot) g.factors := by
  obtain ⟨fs, hfs, rfl⟩ := map_eq_ok.1 h
  exact List.forall₂_map_left_iff.2 ((mapM_eq_ok.1 hfs).imp hbuild)

end Parts

/-! ## 3. Poses -/

namespace Builder

variable {α : Type}

/-- A joint relates the poses of its links and its angle. -/
def poseSlot (t : Nat) (j : Joint α) : Slot :=
  ⟨"pose", [.pose j.parent t, .pose j.child t, .jointAngle j.id t]⟩

/-- A fixed link has a given pose. -/
def restSlot (t : Nat) (l : Link α) : Slot := ⟨"prior", [.pose l.id t]⟩

/-- The slots of the poses: the joints, then the fixed links. -/
def poseSlots (r : Robot α) (t : Nat) : List Slot :=
  r.joints.map (poseSlot t) ++ r.fixedLinks.map (restSlot t)

/-! ## 4. Dynamics -/

/-- A link relates its pose, twist and acceleration to the wrenches of the joints at it. -/
def balanceSlot (r : Robot α) (t : Nat) (l : Link α) : Slot :=
  ⟨"wrench", .pose l.id t :: .twist l.id t :: .twistAccel l.id t ::
    (r.jointsAt l.id).map fun j => .wrench l.id j.id t⟩

/-- A joint relates its two wrenches to each other, and the one on its child to its actuation and
to the plane, if there is one. -/
def wrenchSlots (t : Nat) (planar : Option (Vec3 α)) (j : Joint α) : List Slot :=
  ⟨"wrench_equivalence", [.wrench j.parent j.id t, .wrench j.child j.id t, .jointAngle j.id t]⟩
    :: ⟨"torque", [.wrench j.child j.id t, .torque j.id t]⟩
    :: planar.toList.map fun _ => ⟨"wrench_planar", [.wrench j.child j.id t]⟩

/-- The slots of the dynamics: the moving links, then the joints. -/
def dynamicsSlots (r : Robot α) (t : Nat) (planar : Option (Vec3 α)) : List Slot :=
  r.movingLinks.map (balanceSlot r t) ++ r.joints.flatMap (wrenchSlots t planar)

/-! ## 5. Factors fill slots -/

variable [Scalar α] [Runtime α] {b : Builder α} {r : Robot α} {t : Nat} {g : FactorGraph α}

/-- **The factors of the poses fill the slots of the poses.** -/
theorem poseFactors_fill (h : b.poseFactors r t = .ok g) :
    List.Forall₂ (fun s f => f.Fills s) (poseSlots r t) g.factors := by
  obtain ⟨joints, hjoints, h⟩ := bind_eq_ok.1 h
  obtain ⟨fixed, hfixed, rfl⟩ := map_eq_ok.1 h
  refine List.rel_append ?_ (perFixedLink_fill hfixed fun l f hbuild => ?_)
  · rw [List.map_eq_flatMap]
    refine perJoint_fill hjoints fun j frames fs hbuild => ?_
    obtain ⟨kp, hkp, hbuild⟩ := bind_eq_ok.1 hbuild
    obtain ⟨kc, hkc, hbuild⟩ := bind_eq_ok.1 hbuild
    obtain ⟨kq, hkq, rfl⟩ := map_eq_ok.1 hbuild
    exact .cons ⟨rfl, .cons (Variable.key_eq_ok.1 hkp) (.cons (Variable.key_eq_ok.1 hkc)
      (.cons (Variable.key_eq_ok.1 hkq) .nil))⟩ .nil
  · obtain ⟨k, hk, rfl⟩ := map_eq_ok.1 hbuild
    exact ⟨rfl, .cons (Variable.key_eq_ok.1 hk) .nil⟩

omit [Runtime α] in
theorem balanceFactor_fill {gravity : Vec3 α} {l : Link α} {f : Factor α}
    (h : b.balanceFactor r t gravity l = .ok f) : f.Fills (balanceSlot r t l) := by
  obtain ⟨wrenches, hwrenches, h⟩ := bind_eq_ok.1 h
  obtain ⟨kp, hkp, h⟩ := bind_eq_ok.1 h
  obtain ⟨kv, hkv, h⟩ := bind_eq_ok.1 h
  obtain ⟨ka, hka, rfl⟩ := map_eq_ok.1 h
  refine ⟨rfl, .cons (Variable.key_eq_ok.1 hkp) (.cons (Variable.key_eq_ok.1 hkv)
    (.cons (Variable.key_eq_ok.1 hka) (List.forall₂_map_left_iff.2 ?_)))⟩
  exact (mapM_eq_ok.1 hwrenches).imp fun j k hk => Variable.key_eq_ok.1 hk

omit [Runtime α] in
theorem wrenchFactors_fill {planar : Option (Vec3 α)} {j : Joint α} {frames : JointFrames α}
    {fs : List (Factor α)} (h : b.wrenchFactors t planar j frames = .ok fs) :
    List.Forall₂ (fun s f => f.Fills s) (wrenchSlots t planar j) fs := by
  obtain ⟨kp, hkp, h⟩ := bind_eq_ok.1 h
  obtain ⟨kc, hkc, h⟩ := bind_eq_ok.1 h
  obtain ⟨kq, hkq, h⟩ := bind_eq_ok.1 h
  obtain ⟨kt, hkt, rfl⟩ := map_eq_ok.1 h
  have hp := Variable.key_eq_ok.1 hkp
  have hc := Variable.key_eq_ok.1 hkc
  refine .cons ⟨rfl, .cons hp (.cons hc (.cons (Variable.key_eq_ok.1 hkq) .nil))⟩
    (.cons ⟨rfl, .cons hc (.cons (Variable.key_eq_ok.1 hkt) .nil)⟩ ?_)
  exact List.forall₂_map_left_iff.2 (List.forall₂_map_right_iff.2
    (List.forall₂_same.2 fun axis _ => ⟨rfl, .cons hc .nil⟩))

/-- **The factors of the dynamics fill the slots of the dynamics.** -/
theorem dynamicsFactors_fill {gravity : Vec3 α} {planar : Option (Vec3 α)}
    (h : b.dynamicsFactors r t gravity planar = .ok g) :
    List.Forall₂ (fun s f => f.Fills s) (dynamicsSlots r t planar) g.factors := by
  obtain ⟨links, hlinks, h⟩ := bind_eq_ok.1 h
  obtain ⟨joints, hjoints, rfl⟩ := map_eq_ok.1 h
  refine List.rel_append (List.forall₂_map_left_iff.2 ?_)
    (perJoint_fill hjoints fun j frames fs hbuild => wrenchFactors_fill hbuild)
  exact (mapM_eq_ok.1 (inParallel_eq_ok.1 hlinks)).imp fun l f hbuild => balanceFactor_fill hbuild

end Builder

end Articulated
