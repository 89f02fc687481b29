import Articulated.Assembly.Trajectory
import Articulated.Proofs.Robot.Check

/-!
# Assembly fails only for want of keys

The graph of a valid robot is assembled without looking at any number, so there is one thing that
can go wrong: a variable that does not fit the key layout. Ids of a valid robot fit, and what is
left are the times and the phases.

* `NeedsKeys`: a computation that succeeds under a condition, and fails only because of a key.
  Sequences of such computations are of this kind.
* `Builder.slice_needsKeys`, `Builder.collocationWith_needsKeys`: the slice at a time and the step
  after it.
-/

namespace Articulated

/-! ## 1. Computations that need keys -/

/-- The computation succeeds if `p` holds. If it fails, then a variable did not fit the keys. -/
structure NeedsKeys {α β : Type} (p : Prop) (x : Except (Fault α) β) : Prop where
  succeeds : p → ∃ b, x = .ok b
  fault : ∀ e, x = .error e → ∃ v, e = .breach (.keyLayout v)

namespace NeedsKeys

variable {α β γ : Type} {p q : Prop} {x : Except (Fault α) β}

theorem ok (b : β) : NeedsKeys p (.ok b : Except (Fault α) β) := ⟨fun _ => ⟨b, rfl⟩, nofun⟩

theorem mono (h : NeedsKeys p x) (hqp : q → p) : NeedsKeys q x := ⟨h.succeeds ∘ hqp, h.fault⟩

theorem bind {f : β → Except (Fault α) γ} (hx : NeedsKeys p x)
    (hf : ∀ b, x = .ok b → NeedsKeys p (f b)) : NeedsKeys p (x >>= f) := by
  cases x with
  | error e =>
    refine ⟨fun hp => ?_, fun e' he => hx.fault e' (Except.error.inj he ▸ rfl)⟩
    obtain ⟨b, hb⟩ := hx.succeeds hp
    cases hb
  | ok b => exact hf b rfl

/-- A computation whose answer does not matter to what follows. -/
theorem step {f : β → Except (Fault α) γ} (hx : NeedsKeys p x) (hf : ∀ b, NeedsKeys p (f b)) :
    NeedsKeys p (x >>= f) := hx.bind fun b _ => hf b

theorem mapM {f : β → Except (Fault α) γ} : ∀ {l : List β}, (∀ b ∈ l, NeedsKeys p (f b)) →
    NeedsKeys p (l.mapM f)
  | [], _ => ok []
  | b :: l, h => by
    rw [List.mapM_cons]
    refine (h b List.mem_cons_self).step fun c => ?_
    exact (mapM fun b' hb' => h b' (List.mem_cons_of_mem b hb')).step fun cs => ok _

theorem inParallel [Runtime α] {f : β → Except (Fault α) γ} {l : List β}
    (h : ∀ b ∈ l, NeedsKeys p (f b)) : NeedsKeys p (inParallel l f) := by
  refine ⟨fun hp => ?_, fun e he => ?_⟩
  · obtain ⟨cs, hcs⟩ := (mapM h).succeeds hp
    exact ⟨cs, inParallel_eq_ok.2 hcs⟩
  · obtain ⟨b, hb, hfailed⟩ := exists_failed he
    exact (h b hb).fault e hfailed

end NeedsKeys

theorem Variable.key_needsKeys {α : Type} {p : Prop} {v : Variable} (h : p → v.fields.Fits) :
    NeedsKeys p (v.key : Except (Fault α) Key) := by
  unfold key key?
  by_cases hfits : v.fields.Fits
  · rw [if_pos hfits]
    exact .ok _
  · rw [if_neg hfits]
    exact ⟨fun hp => absurd (h hp) hfits, fun e he => ⟨v, (Except.error.inj he).symm⟩⟩

/-- A quantity with ids that fit needs its time to fit. -/
theorem Variable.key_at {α : Type} {v : Variable} {t : Nat} (hlink : v.fields.link ≤ maxId)
    (hjoint : v.fields.joint ≤ maxId) (ht : v.fields.index = t) :
    NeedsKeys (t ≤ maxIndex) (v.key : Except (Fault α) Key) :=
  key_needsKeys fun hle => ⟨hlink, hjoint, ht ▸ hle⟩

/-! ## 2. Frames of a valid robot -/

namespace Robot

/-- The frames of every joint of a valid robot exist. -/
theorem Valid.exists_frames {α : Type} [Scalar α] {r : Robot α} {j : Joint α} (hr : r.Valid)
    (hj : j ∈ r.joints) : ∃ frames, r.frames j = .ok frames := by
  obtain ⟨parent, hparent⟩ := Option.isSome_iff_exists.1 (mem_ids_iff.2 (hr.parent_mem j hj))
  obtain ⟨child, hchild⟩ := Option.isSome_iff_exists.1 (mem_ids_iff.2 (hr.child_mem j hj))
  refine ⟨.ofRest j.type parent.rest j.rest child.rest j.axis, ?_⟩
  unfold frames
  rw [hparent, hchild]
  rfl

end Robot

/-! ## 3. Builders -/

namespace Builder

variable {α : Type} [Scalar α] [Runtime α] {b : Builder α} {r : Robot α} {t : Nat} {p : Prop}

theorem perJoint_needsKeys (hr : r.Valid)
    {build : Joint α → JointFrames α → Except (Fault α) (List (Factor α))}
    (h : ∀ j ∈ r.joints, ∀ frames, NeedsKeys p (build j frames)) :
    NeedsKeys p (perJoint r build) := by
  refine .step (.inParallel fun j hj => ?_) fun _ => .ok _
  obtain ⟨frames, hframes⟩ := hr.exists_frames hj
  rw [hframes]
  exact h j hj frames

omit [Scalar α] [Runtime α] in
theorem perFixedLink_needsKeys {build : Link α → Except (Fault α) (Factor α)}
    (h : ∀ l ∈ r.links, NeedsKeys p (build l)) : NeedsKeys p (perFixedLink r build) :=
  .step (.mapM fun l hl => h l (List.mem_filter.1 hl).1) fun _ => .ok _

section Slice

variable (hr : r.Valid)

include hr

theorem poseFactors_needsKeys : NeedsKeys (t ≤ maxIndex) (b.poseFactors r t) := by
  refine .step (perJoint_needsKeys hr fun j hj frames => ?_) fun _ =>
    .step (perFixedLink_needsKeys fun l hl => ?_) fun _ => .ok _
  · have hjoint := hr.joint_le j hj
    exact .step (Variable.key_at (hr.parent_le hj) (Nat.zero_le _) rfl) fun _ =>
      .step (Variable.key_at (hr.child_le hj) (Nat.zero_le _) rfl) fun _ =>
      .step (Variable.key_at (Nat.zero_le _) hjoint rfl) fun _ => .ok _
  · exact .step (Variable.key_at (hr.link_le l hl) (Nat.zero_le _) rfl) fun _ => .ok _

theorem twistFactors_needsKeys : NeedsKeys (t ≤ maxIndex) (b.twistFactors r t) := by
  refine .step (perJoint_needsKeys hr fun j hj frames => ?_) fun _ =>
    .step (perFixedLink_needsKeys fun l hl => ?_) fun _ => .ok _
  · have hjoint := hr.joint_le j hj
    exact .step (Variable.key_at (hr.parent_le hj) (Nat.zero_le _) rfl) fun _ =>
      .step (Variable.key_at (hr.child_le hj) (Nat.zero_le _) rfl) fun _ =>
      .step (Variable.key_at (Nat.zero_le _) hjoint rfl) fun _ =>
      .step (Variable.key_at (Nat.zero_le _) hjoint rfl) fun _ => .ok _
  · exact .step (Variable.key_at (hr.link_le l hl) (Nat.zero_le _) rfl) fun _ => .ok _

theorem accelFactors_needsKeys : NeedsKeys (t ≤ maxIndex) (b.accelFactors r t) := by
  refine .step (perJoint_needsKeys hr fun j hj frames => ?_) fun _ =>
    .step (perFixedLink_needsKeys fun l hl => ?_) fun _ => .ok _
  · have hjoint := hr.joint_le j hj
    exact .step (Variable.key_at (hr.child_le hj) (Nat.zero_le _) rfl) fun _ =>
      .step (Variable.key_at (hr.parent_le hj) (Nat.zero_le _) rfl) fun _ =>
      .step (Variable.key_at (hr.child_le hj) (Nat.zero_le _) rfl) fun _ =>
      .step (Variable.key_at (Nat.zero_le _) hjoint rfl) fun _ =>
      .step (Variable.key_at (Nat.zero_le _) hjoint rfl) fun _ =>
      .step (Variable.key_at (Nat.zero_le _) hjoint rfl) fun _ => .ok _
  · exact .step (Variable.key_at (hr.link_le l hl) (Nat.zero_le _) rfl) fun _ => .ok _

theorem dynamicsFactors_needsKeys (gravity : Vec3 α) (planar : Option (Vec3 α)) :
    NeedsKeys (t ≤ maxIndex) (b.dynamicsFactors r t gravity planar) := by
  refine .step (.inParallel fun l hl => ?_) fun _ =>
    .step (perJoint_needsKeys hr fun j hj frames => ?_) fun _ => .ok _
  · have hlink := hr.link_le l (List.mem_filter.1 hl).1
    refine .step (.mapM fun j hj => ?_) fun _ =>
      .step (Variable.key_at hlink (Nat.zero_le _) rfl) fun _ =>
      .step (Variable.key_at hlink (Nat.zero_le _) rfl) fun _ =>
      .step (Variable.key_at hlink (Nat.zero_le _) rfl) fun _ => .ok _
    exact Variable.key_at hlink (hr.joint_le j (List.mem_filter.1 hj).1) rfl
  · have hjoint := hr.joint_le j hj
    exact .step (Variable.key_at (hr.parent_le hj) hjoint rfl) fun _ =>
      .step (Variable.key_at (hr.child_le hj) hjoint rfl) fun _ =>
      .step (Variable.key_at (Nat.zero_le _) hjoint rfl) fun _ =>
      .step (Variable.key_at (Nat.zero_le _) hjoint rfl) fun _ => .ok _

/-- **The slice of a valid robot is assembled at every time that fits the keys.** -/
theorem slice_needsKeys (gravity : Vec3 α) (planar : Option (Vec3 α)) :
    NeedsKeys (t ≤ maxIndex) (b.slice r t gravity planar) := by
  refine .step (.mapM fun group _ => ?_) fun _ => .ok _
  cases group with
  | poses => exact poseFactors_needsKeys hr
  | twists => exact twistFactors_needsKeys hr
  | accels => exact accelFactors_needsKeys hr
  | dynamics => exact dynamicsFactors_needsKeys hr gravity planar

omit [Scalar α] [Runtime α] in
/-- A step is assembled if its end fits the keys. -/
theorem collocationWith_needsKeys (step : TimeStep α) (scheme : CollocationScheme) :
    NeedsKeys (t + 1 ≤ maxIndex) (b.collocationWith r t step scheme) := by
  refine .step (.mapM fun j hj => ?_) fun _ => .ok _
  have hjoint := hr.joint_le j (List.mem_mergeSort.1 hj)
  have hstart : ∀ {v : Variable}, v.fields.link = 0 → v.fields.joint = j.id →
      v.fields.index = t → NeedsKeys (t + 1 ≤ maxIndex) (v.key : Except (Fault α) Key) :=
    fun hl hj ht => (Variable.key_at (hl ▸ Nat.zero_le _) (hj ▸ hjoint) ht).mono Nat.le_of_succ_le
  have hend : ∀ {v : Variable}, v.fields.link = 0 → v.fields.joint = j.id →
      v.fields.index = t + 1 → NeedsKeys (t + 1 ≤ maxIndex) (v.key : Except (Fault α) Key) :=
    fun hl hj ht => Variable.key_at (hl ▸ Nat.zero_le _) (hj ▸ hjoint) ht
  exact .step (hstart rfl rfl rfl) fun _ => .step (hend rfl rfl rfl) fun _ =>
    .step (hstart rfl rfl rfl) fun _ => .step (hend rfl rfl rfl) fun _ =>
    .step (hstart rfl rfl rfl) fun _ => .step (hend rfl rfl rfl) fun _ => .ok _

omit [Scalar α] [Runtime α] in
/-- The step of a phase is assembled if the phase and the end of the step fit the keys. -/
theorem phaseCollocation_needsKeys (phase : Nat) (scheme : CollocationScheme) :
    NeedsKeys (t + 1 ≤ maxIndex ∧ phase ≤ maxIndex) (b.phaseCollocation r t phase scheme) :=
  .step (Variable.key_needsKeys fun h => ⟨Nat.zero_le _, Nat.zero_le _, h.2⟩) fun _ =>
    (collocationWith_needsKeys hr _ scheme).mono And.left

end Slice

end Builder

end Articulated
