import Articulated.Assembly.Initial
import Articulated.Assembly.Priors
import Articulated.Proofs.Assembly.Kinematics
import Articulated.Proofs.Assembly.Layout
import Articulated.Robot.Model

/-!
# Numbers for joints

Numbers are given for the joints of a robot, and read back, in the order of the joint ids, whatever
the ids are and in whatever order the joints are stored: the number for a joint stands behind one
for each joint with a smaller id. Numbers that are not one for every joint are refused.

* `Robot.rank`: how many joints have smaller ids.
* `Robot.Valid.forall₂_sortedJoints`: going through the joints side by side with a list finds, for
  every joint, what stands at its rank.
* `Checked`: a computation that refuses input of the wrong size, and nothing else.
* `Builder.jointPrior_vanishes_iff`: a prior vanishes where the quantity has the given value.
* `Builder.joint_vectors_in_order`: what goes in for a joint is what comes out for it.
-/

namespace Articulated

/-! ## 1. Ranks -/

/-- In a list that ascends along `f`, as many elements lie below an element as stand before it. -/
theorem countP_lt_getElem {β : Type} {f : β → Nat} : ∀ {l : List β}, l.Pairwise (f · < f ·) →
    ∀ {i : Nat} (hi : i < l.length), l.countP (fun c => f c < f l[i]) = i
  | b :: l, h, 0, _ => by
    obtain ⟨hb, -⟩ := List.pairwise_cons.1 h
    refine List.countP_eq_zero.2 fun c hc => ?_
    rw [decide_eq_true_iff, Nat.not_lt]
    rcases List.mem_cons.1 hc with rfl | hc
    · exact Nat.le_refl _
    · exact (hb c hc).le
  | b :: l, h, i + 1, hi => by
    obtain ⟨hb, hl⟩ := List.pairwise_cons.1 h
    have hi : i < l.length := Nat.lt_of_succ_lt_succ hi
    have hfirst : decide (f b < f l[i]) = true := decide_eq_true (hb _ (List.getElem_mem hi))
    show (b :: l).countP (fun c => f c < f l[i]) = i + 1
    rw [List.countP_cons, countP_lt_getElem hl hi, if_pos hfirst]

namespace Robot

variable {α β γ : Type} {r : Robot α}

/-- The number of joints with smaller ids. -/
def rank (r : Robot α) (j : Joint α) : Nat := r.joints.countP fun i => i.id < j.id

theorem Valid.sortedJoints_ascending (hr : r.Valid) :
    r.sortedJoints.Pairwise fun i j => i.id < j.id := by
  have hle : r.sortedJoints.Pairwise fun i j => decide (i.id ≤ j.id) = true := by
    refine List.pairwise_mergeSort (fun i j k hij hjk => ?_) (fun i j => ?_) _
    · exact decide_eq_true (Nat.le_trans (of_decide_eq_true hij) (of_decide_eq_true hjk))
    · rw [Bool.or_eq_true, decide_eq_true_iff, decide_eq_true_iff]
      exact Nat.le_total i.id j.id
  have hne : r.sortedJoints.Pairwise fun i j => i.id ≠ j.id :=
    List.pairwise_map.1 (((List.mergeSort_perm _ _).map _).nodup_iff.2 hr.joints_nodup)
  exact (hle.and hne).imp fun h => Nat.lt_of_le_of_ne (of_decide_eq_true h.1) h.2

/-- The joint at a position of the sorted list has this rank. -/
theorem Valid.rank_sortedJoints (hr : r.Valid) {i : Nat} (hi : i < r.sortedJoints.length) :
    r.rank r.sortedJoints[i] = i := by
  rw [rank, ← (List.mergeSort_perm r.joints _).countP_eq]
  exact countP_lt_getElem hr.sortedJoints_ascending hi

theorem mem_sortedJoints {j : Joint α} : j ∈ r.sortedJoints ↔ j ∈ r.joints := List.mem_mergeSort

theorem length_sortedJoints : r.sortedJoints.length = r.joints.length := List.length_mergeSort _

/-- Every joint is related to what stands in the list behind something for each joint with a smaller
id. -/
def AtRanks (r : Robot α) (P : Joint α → β → Prop) (xs : List β) : Prop :=
  ∀ j ∈ r.joints, ∃ x, xs[r.rank j]? = some x ∧ P j x

/-- **Side by side with the sorted joints, a list is read at their ranks.** -/
theorem Valid.forall₂_sortedJoints (hr : r.Valid) {P : Joint α → β → Prop} {xs : List β} :
    List.Forall₂ P r.sortedJoints xs ↔ xs.length = r.joints.length ∧ r.AtRanks P xs := by
  rw [List.forall₂_iff_get]
  constructor
  · intro h
    obtain ⟨hlength, hP⟩ := h
    refine ⟨hlength.symm.trans length_sortedJoints, fun j hj => ?_⟩
    obtain ⟨i, hi, rfl⟩ := List.getElem_of_mem (mem_sortedJoints.2 hj)
    have hx : i < xs.length := hlength ▸ hi
    refine ⟨xs[i], ?_, hP i hi hx⟩
    rw [hr.rank_sortedJoints hi, List.getElem?_eq_getElem hx]
  · intro h
    obtain ⟨hlength, hP⟩ := h
    refine ⟨length_sortedJoints.trans hlength.symm, fun i hi hx => ?_⟩
    obtain ⟨x, hget, hP⟩ := hP r.sortedJoints[i] (mem_sortedJoints.1 (List.getElem_mem hi))
    rw [hr.rank_sortedJoints hi, List.getElem?_eq_getElem hx] at hget
    obtain rfl := Option.some.inj hget
    exact hP

/-- The same of pairs of a joint and what is given for it. -/
theorem Valid.forall_zip_sortedJoints (hr : r.Valid) {P : Joint α → β → Prop} {xs : List β}
    (hxs : xs.length = r.joints.length) :
    (∀ e ∈ r.sortedJoints.zip xs, P e.1 e.2) ↔ r.AtRanks P xs := by
  rw [← and_iff_right (b := r.AtRanks P xs) hxs, ← hr.forall₂_sortedJoints, List.forall₂_iff_zip,
    and_iff_right (length_sortedJoints.trans hxs.symm)]
  exact Prod.forall

/-- Two lists are read at the same ranks. -/
theorem atRanks_zip {P : Joint α → β → Prop} {Q : Joint α → γ → Prop} {xs : List β}
    {ys : List γ} : r.AtRanks (fun j e => P j e.1 ∧ Q j e.2) (xs.zip ys) ↔
      r.AtRanks P xs ∧ r.AtRanks Q ys := by
  refine Iff.trans (forall₂_congr fun j _ => ?_) forall₂_and
  simp only [List.getElem?_zip_eq_some]
  constructor
  · intro h
    obtain ⟨e, ⟨hx, hy⟩, hP, hQ⟩ := h
    exact ⟨⟨e.1, hx, hP⟩, e.2, hy, hQ⟩
  · intro h
    obtain ⟨⟨x, hx, hP⟩, y, hy, hQ⟩ := h
    exact ⟨(x, y), ⟨hx, hy⟩, hP, hQ⟩

end Robot

/-! ## 2. Computations that check sizes -/

/-- The computation answers with an error about its input. A breach of contract is none. -/
def Errs {α β : Type} (x : Except (Fault α) β) : Prop :=
  ∃ e, x = .error e ∧ ∀ c, e ≠ .breach c

/-- The computation refuses exactly input of the wrong size, and answers wherever the input is of
the right size and fits the keys. It can come to a variable that fits no key before it comes to what
is of the wrong size, unless `reached`. -/
structure Checked {α β : Type} (fits reached sized : Prop) (x : Except (Fault α) β) : Prop where
  succeeds : fits → sized → ∃ b, x = .ok b
  refuses : reached → ¬ sized → Errs x
  sized_of_ok : ∀ b, x = .ok b → sized
  unsized_of_errs : Errs x → ¬ sized
  breach : ∀ c, x = .error (.breach c) → ∃ v, c = .keyLayout v

section Calculus

variable {α β γ : Type} {fits reached sized sized' : Prop} {x : Except (Fault α) β}

theorem Errs.ne_ok (h : Errs x) (b : β) : x ≠ .ok b := by
  obtain ⟨e, rfl, -⟩ := h
  exact nofun

theorem Errs.bind (h : Errs x) (f : β → Except (Fault α) γ) : Errs (x >>= f) := by
  obtain ⟨e, rfl, he⟩ := h
  exact ⟨e, rfl, he⟩

/-- A computation that only needs keys is of the right size. -/
theorem NeedsKeys.checked (h : NeedsKeys fits x) : Checked fits reached True x where
  succeeds hfits _ := h.succeeds hfits
  refuses _ hsized := absurd trivial hsized
  sized_of_ok _ _ := trivial
  unsized_of_errs := by
    intro herrs
    obtain ⟨e, he, hbreach⟩ := herrs
    obtain ⟨v, rfl⟩ := h.fault e he
    exact absurd rfl (hbreach _)
  breach c hc := by
    obtain ⟨v, hv⟩ := h.fault _ hc
    exact ⟨v, Fault.breach.inj hv⟩

namespace Checked

/-- A computation before another one. What the first one says about its size is said before the
second one comes to a key. -/
theorem bind {f : β → Except (Fault α) γ} (hx : Checked fits reached sized x)
    (hreach : reached → sized → ∃ b, x = .ok b)
    (hf : ∀ b, x = .ok b → Checked fits reached sized' (f b)) :
    Checked fits reached (sized ∧ sized') (x >>= f) := by
  cases x with
  | error e =>
    refine ⟨fun hfits hsized => ?_, fun hreached hsized => (hx.refuses hreached ?_).bind f, nofun,
      fun herrs hsized => ?_, fun c hc => hx.breach c (Except.error.inj hc ▸ rfl)⟩
    · obtain ⟨b, hb⟩ := hx.succeeds hfits hsized.1
      cases hb
    · intro hsized
      obtain ⟨b, hb⟩ := hreach hreached hsized
      cases hb
    · obtain ⟨e', he, hbreach⟩ := herrs
      exact hx.unsized_of_errs ⟨e', Except.error.inj he ▸ rfl, hbreach⟩ hsized.1
  | ok b =>
    have hsized := hx.sized_of_ok b rfl
    have hf := hf b rfl
    exact ⟨fun hfits h => hf.succeeds hfits h.2, fun hreached h =>
      hf.refuses hreached fun h' => h ⟨hsized, h'⟩, fun c hc => ⟨hsized, hf.sized_of_ok c hc⟩,
      fun herrs h => hf.unsized_of_errs herrs h.2, hf.breach⟩

theorem mono {fits' reached' sized' : Prop} (h : Checked fits reached sized x)
    (hfits : fits' → fits) (hreached : reached' → reached) (hsized : sized' ↔ sized) :
    Checked fits' reached' sized' x :=
  ⟨fun hf hs => h.succeeds (hfits hf) (hsized.1 hs),
    fun hr hs => h.refuses (hreached hr) (mt hsized.2 hs),
    fun b hb => hsized.2 (h.sized_of_ok b hb), fun he hs => h.unsized_of_errs he (hsized.1 hs),
    h.breach⟩

/-- A list of computations checks all sizes. -/
theorem mapM {f : β → Except (Fault α) γ} {sized : β → Prop} : ∀ {l : List β},
    (∀ b ∈ l, Checked fits fits (sized b) (f b)) →
      Checked fits fits (∀ b ∈ l, sized b) (l.mapM f)
  | [], _ => ⟨fun _ _ => ⟨[], rfl⟩, fun _ h => absurd (List.forall_mem_nil _) h,
      fun _ _ => List.forall_mem_nil _, fun h => (h.ne_ok [] rfl).elim, nofun⟩
  | b :: l, h => by
    obtain ⟨hb, hl⟩ := List.forall_mem_cons.1 h
    have hrest : ∀ c, Checked fits fits ((∀ b ∈ l, sized b) ∧ True)
        (l.mapM f >>= fun cs => pure (c :: cs)) := fun c =>
      (mapM hl).bind (mapM hl).succeeds fun cs _ => (NeedsKeys.ok (c :: cs)).checked
    rw [List.mapM_cons]
    refine (hb.bind hb.succeeds fun c _ => hrest c).mono id id ?_
    rw [List.forall_mem_cons, and_true]

end Checked

end Calculus

/-! ## 3. Priors -/

/-- Every joint has the number that is given for it, as the value of a quantity at a time. -/
def Values.JointsHave (vs : Values ℝ) (r : Robot ℝ) (quantity : Nat → Nat → Variable) (t : Nat)
    (xs : List ℝ) : Prop :=
  r.AtRanks (fun j x => vs.scalarOf (quantity j.id t) = .ok x) xs

theorem scalarPrior_vanishes_iff {vs : Values ℝ} {k : Key} {x σ : ℝ} :
    (Factor.scalarPrior k x σ).Vanishes vs ↔ vs.scalar k = .ok x := by
  constructor
  · intro h
    obtain ⟨rows, hrows, hzero⟩ := h
    obtain ⟨value, hvalue, hrows⟩ := bind_eq_ok.1 hrows
    cases value with
    | vector v | pose p => cases hrows
    | scalar y =>
      obtain rfl := Except.ok.inj hrows
      have hy : y = x := sub_eq_zero.1 (hzero _ List.mem_cons_self)
      exact bind_eq_ok.2 ⟨.scalar y, hvalue, congrArg _ hy⟩
  · intro h
    refine ⟨[x - x], bind_eq_ok.2 ⟨_, Values.lookup_of_scalar h, rfl⟩, ?_⟩
    rw [sub_self]
    exact List.forall_mem_singleton.2 rfl

namespace Builder

section Sizes

variable {α : Type}

theorem checkCount_checked {fits reached : Prop} (r : Robot α) (kind : JointQuantity)
    (xs : List α) : Checked fits reached (xs.length = r.joints.length) (checkCount r kind xs) := by
  unfold checkCount
  by_cases hsized : xs.length = r.joints.length
  · rw [if_pos hsized]
    exact ⟨fun _ _ => ⟨(), rfl⟩, fun _ h => absurd hsized h, fun _ _ => hsized,
      fun h => (h.ne_ok () rfl).elim, nofun⟩
  · rw [if_neg hsized]
    exact ⟨fun _ h => absurd h hsized, fun _ _ => ⟨_, rfl, nofun⟩, nofun, fun _ => hsized, nofun⟩

/-- What follows a check of the numbers for the joints. -/
theorem checkCount_bind {r : Robot α} {β : Type} {fits reached sized : Prop} (kind : JointQuantity)
    (xs : List α) {x : Except (Fault α) β} (hx : Checked fits reached sized x) :
    Checked fits reached (xs.length = r.joints.length ∧ sized)
      (checkCount r kind xs >>= fun _ => x) := by
  refine (checkCount_checked r kind xs).bind (fun _ hsized => ⟨(), ?_⟩) fun _ _ => hx
  rw [checkCount, if_pos hsized]
  rfl

end Sizes

section Keys

variable {α : Type} {b : Builder α} {r : Robot α} (hr : r.Valid)

/-- A quantity of a joint at a time. -/
def OfJoint (quantity : Nat → Nat → Variable) : Prop :=
  ∀ id t, (quantity id t).fields.link = 0 ∧ (quantity id t).fields.joint = id ∧
    (quantity id t).fields.index = t

theorem ofJoint_jointAngle : OfJoint .jointAngle := fun _ _ => ⟨rfl, rfl, rfl⟩

theorem ofJoint_jointVel : OfJoint .jointVel := fun _ _ => ⟨rfl, rfl, rfl⟩

theorem ofJoint_jointAccel : OfJoint .jointAccel := fun _ _ => ⟨rfl, rfl, rfl⟩

theorem ofJoint_torque : OfJoint .torque := fun _ _ => ⟨rfl, rfl, rfl⟩

variable {quantity : Nat → Nat → Variable} (hquantity : OfJoint quantity)

include hr hquantity in
/-- A prior of a joint needs its time to fit. -/
theorem jointPrior_needsKeys {j : Joint α} (hj : j ∈ r.joints) (sigma : SigmaName) (t : Nat)
    (x : α) : NeedsKeys (t ≤ maxIndex) (b.jointPrior quantity sigma j t x) := by
  obtain ⟨hlink, hjoint, hindex⟩ := hquantity j.id t
  refine (Variable.key_at ?_ ?_ hindex).step fun k => .ok _
  · rw [hlink]
    exact Nat.zero_le _
  · rw [hjoint]
    exact hr.joint_le j hj

/-- Coordinates, rates and one more quantity of the joints at a time. -/
def statePriors (b : Builder α) (r : Robot α) (kind : JointQuantity)
    (quantity : Nat → Nat → Variable) (sigma : SigmaName) (t : Nat)
    (angles velocities others : List α) : Except (Fault α) (FactorGraph α) := do
  checkCount r .angles angles
  checkCount r .velocities velocities
  checkCount r kind others
  let factors ← (jointRows r angles velocities others).mapM fun (j, q, v, x) => do
    return [← b.jointPrior .jointAngle .anglePrior j t q,
      ← b.jointPrior .jointVel .velocityPrior j t v, ← b.jointPrior quantity sigma j t x]
  return ⟨factors.flatten⟩

theorem forwardPriors_eq : b.forwardPriors r = b.statePriors r .torques .torque .torquePrior := rfl

theorem inversePriors_eq :
    b.inversePriors r = b.statePriors r .accelerations .jointAccel .jointAccelPrior := rfl

include hr hquantity in
/-- **The sizes are checked before any key is needed.** -/
theorem statePriors_checked (kind : JointQuantity) (sigma : SigmaName) (t : Nat)
    (angles velocities others : List α) :
    Checked (t ≤ maxIndex) True (angles.length = r.joints.length ∧
        velocities.length = r.joints.length ∧ others.length = r.joints.length)
      (b.statePriors r kind quantity sigma t angles velocities others) := by
  have hkeys : NeedsKeys (t ≤ maxIndex)
      ((jointRows r angles velocities others).mapM fun e => do
        return [← b.jointPrior .jointAngle .anglePrior e.1 t e.2.1,
          ← b.jointPrior .jointVel .velocityPrior e.1 t e.2.2.1,
          ← b.jointPrior quantity sigma e.1 t e.2.2.2]) := by
    refine .mapM fun e he => ?_
    have hj : e.1 ∈ r.joints := Robot.mem_sortedJoints.1 (List.of_mem_zip he).1
    exact (jointPrior_needsKeys hr ofJoint_jointAngle hj _ t _).step fun _ =>
      (jointPrior_needsKeys hr ofJoint_jointVel hj _ t _).step fun _ =>
        (jointPrior_needsKeys hr hquantity hj _ t _).step fun _ => .ok _
  refine (checkCount_bind .angles angles (checkCount_bind .velocities velocities
    (checkCount_bind kind others (NeedsKeys.checked (hkeys.step fun _ => .ok _))))).mono id id ?_
  rw [and_true]

include hr in
theorem torquePriors_checked (t : Nat) (torques : List α) {fits : Prop}
    (hfits : fits → t ≤ maxIndex) :
    Checked fits fits (torques.length = r.joints.length) (b.torquePriors r t torques) := by
  have hkeys : NeedsKeys fits ((r.sortedJoints.zip torques).mapM fun e =>
      b.jointPrior .torque .torquePrior e.1 t e.2) := by
    refine .mapM fun e he => ?_
    have hj : e.1 ∈ r.joints := Robot.mem_sortedJoints.1 (List.of_mem_zip he).1
    exact (jointPrior_needsKeys hr ofJoint_torque hj _ t _).mono hfits
  refine (checkCount_bind .torques torques hkeys.checked).mono id id ?_
  rw [and_true]

include hr in
/-- The time zero fits every key. -/
theorem startPriors_needsKeys {fits : Prop} (angles velocities : List α) :
    NeedsKeys fits ((r.sortedJoints.zip (angles.zip velocities)).mapM fun e => do
      return [← b.jointPrior .jointAngle .anglePrior e.1 0 e.2.1,
        ← b.jointPrior .jointVel .velocityPrior e.1 0 e.2.2]) := by
  refine .mapM fun e he => ?_
  have hj : e.1 ∈ r.joints := Robot.mem_sortedJoints.1 (List.of_mem_zip he).1
  have hzero : fits → 0 ≤ maxIndex := fun _ => Nat.zero_le _
  exact ((jointPrior_needsKeys hr ofJoint_jointAngle hj _ 0 _).mono hzero).step fun _ =>
    ((jointPrior_needsKeys hr ofJoint_jointVel hj _ 0 _).mono hzero).step fun _ => .ok _

include hr in
theorem actuationPriors_checked {numSteps : Nat} {torques : List (List α)}
    (hcount : torques.length = numSteps + 1) :
    Checked (numSteps ≤ maxIndex) (numSteps ≤ maxIndex) (∀ τ ∈ torques, τ.length = r.joints.length)
      (torques.zipIdx.mapM fun e => b.torquePriors r e.2 e.1) := by
  have hrows : Checked (numSteps ≤ maxIndex) (numSteps ≤ maxIndex)
      (∀ e ∈ torques.zipIdx, e.1.length = r.joints.length)
      (torques.zipIdx.mapM fun e => b.torquePriors r e.2 e.1) := by
    refine .mapM fun e he => torquePriors_checked hr e.2 e.1 fun hfits => ?_
    have htime : e.2 < torques.length := by simpa using List.snd_lt_add_of_mem_zipIdx he
    omega
  refine hrows.mono id id ?_
  conv_lhs => rw [← List.zipIdx_map_fst 0 torques]
  exact List.forall_mem_map

include hr in
/-- **The actuations of a time are checked after the keys of the times before are made.** -/
theorem trajectoryPriors_checked (numSteps : Nat) (angles velocities : List α)
    (torques : List (List α)) :
    Checked (numSteps ≤ maxIndex) (numSteps ≤ maxIndex) (torques.length = numSteps + 1 ∧
        angles.length = r.joints.length ∧ velocities.length = r.joints.length ∧
        ∀ τ ∈ torques, τ.length = r.joints.length)
      (b.trajectoryPriors r numSteps angles velocities torques) := by
  by_cases hcount : torques.length = numSteps + 1
  · have hstart : NeedsKeys (numSteps ≤ maxIndex) _ :=
      startPriors_needsKeys (b := b) hr angles velocities
    have hactuation := actuationPriors_checked (b := b) hr hcount
    unfold trajectoryPriors
    rw [if_neg (not_not_intro hcount)]
    refine (checkCount_bind .angles angles (checkCount_bind .velocities velocities
      (Checked.bind hstart.checked (fun hfits _ => hstart.succeeds hfits) fun _ _ =>
        hactuation.bind hactuation.succeeds fun _ _ =>
          NeedsKeys.checked (.ok _)))).mono id id ?_
    rw [and_iff_right hcount, and_true, true_and]
  · unfold trajectoryPriors
    rw [if_pos hcount]
    exact ⟨fun _ h => absurd h.1 hcount, fun _ _ => ⟨_, rfl, nofun⟩, nofun, fun _ h => hcount h.1,
      nofun⟩

end Keys

/-! ## 4. Where priors vanish -/

section Values

variable {b : Builder ℝ} {r : Robot ℝ} {t : Nat} {vs : Values ℝ} (hr : r.Valid)

/-- **A prior vanishes where the quantity has the given value.** -/
theorem jointPrior_vanishes_iff {quantity : Nat → Nat → Variable} {sigma : SigmaName} {j : Joint ℝ}
    {x : ℝ} {f : Factor ℝ} (h : b.jointPrior quantity sigma j t x = .ok f) :
    f.Vanishes vs ↔ vs.scalarOf (quantity j.id t) = .ok x := by
  obtain ⟨k, hk, rfl⟩ := map_eq_ok.1 h
  rw [scalarPrior_vanishes_iff, Values.scalarOf, hk]
  rfl

/-- What holds row by row holds of the priors of all rows. -/
theorem rows_vanish_iff {β : Type} {row : β → Except (Fault ℝ) (List (Factor ℝ))} {l : List β}
    {fss : List (List (Factor ℝ))} {q : β → Prop} (h : l.mapM row = .ok fss)
    (hrow : ∀ e ∈ l, ∀ fs, row e = .ok fs → ((∀ f ∈ fs, f.Vanishes vs) ↔ q e)) :
    (∀ f ∈ fss.flatten, f.Vanishes vs) ↔ ∀ e ∈ l, q e :=
  List.forall_mem_flatten.trans (forall_answers_iff h hrow)

include hr in
/-- The priors of a state vanish where every joint has its numbers. -/
theorem statePriors_vanish_iff {kind : JointQuantity} {quantity : Nat → Nat → Variable}
    (hquantity : OfJoint quantity) {sigma : SigmaName} {angles velocities others : List ℝ}
    {g : FactorGraph ℝ}
    (h : b.statePriors r kind quantity sigma t angles velocities others = .ok g) :
    (∀ f ∈ g.factors, f.Vanishes vs) ↔ vs.JointsHave r .jointAngle t angles ∧
      vs.JointsHave r .jointVel t velocities ∧ vs.JointsHave r quantity t others := by
  obtain ⟨hangles, hvelocities, hothers⟩ :=
    (statePriors_checked hr hquantity kind sigma t angles velocities others).sized_of_ok g h
  obtain ⟨-, -, h⟩ := bind_eq_ok.1 h
  obtain ⟨-, -, h⟩ := bind_eq_ok.1 h
  obtain ⟨-, -, h⟩ := bind_eq_ok.1 h
  obtain ⟨fss, hfss, rfl⟩ := map_eq_ok.1 h
  have hlength : (angles.zip (velocities.zip others)).length = r.joints.length := by
    rw [List.length_zip, List.length_zip, hangles, hvelocities, hothers, Nat.min_self, Nat.min_self]
  have hrow : ∀ e ∈ jointRows r angles velocities others, ∀ fs, (do
      return [← b.jointPrior .jointAngle .anglePrior e.1 t e.2.1,
        ← b.jointPrior .jointVel .velocityPrior e.1 t e.2.2.1,
        ← b.jointPrior quantity sigma e.1 t e.2.2.2]) = Except.ok fs →
      ((∀ f ∈ fs, f.Vanishes vs) ↔ vs.scalarOf (.jointAngle e.1.id t) = .ok e.2.1 ∧
        vs.scalarOf (.jointVel e.1.id t) = .ok e.2.2.1 ∧
        vs.scalarOf (quantity e.1.id t) = .ok e.2.2.2) := by
    intro e _ fs hfs
    obtain ⟨angle, hangle, hfs⟩ := bind_eq_ok.1 hfs
    obtain ⟨velocity, hvelocity, hfs⟩ := bind_eq_ok.1 hfs
    obtain ⟨other, hother, rfl⟩ := map_eq_ok.1 hfs
    rw [List.forall_mem_cons, List.forall_mem_cons, List.forall_mem_singleton,
      jointPrior_vanishes_iff hangle, jointPrior_vanishes_iff hvelocity,
      jointPrior_vanishes_iff hother]
  unfold Values.JointsHave
  rw [← Robot.atRanks_zip, ← Robot.atRanks_zip, ← hr.forall_zip_sortedJoints hlength]
  exact rows_vanish_iff hfss hrow

include hr in
theorem torquePriors_vanish_iff {torques : List ℝ} {fs : List (Factor ℝ)}
    (h : b.torquePriors r t torques = .ok fs) :
    (∀ f ∈ fs, f.Vanishes vs) ↔ vs.JointsHave r .torque t torques := by
  have hlength : torques.length = r.joints.length :=
    (torquePriors_checked hr t torques id).sized_of_ok fs h
  obtain ⟨-, -, hfs⟩ := bind_eq_ok.1 h
  unfold Values.JointsHave
  rw [forall_answers_iff hfs fun e _ f hf => jointPrior_vanishes_iff hf]
  rw [← hr.forall_zip_sortedJoints hlength]

include hr in
theorem startPriors_vanish_iff {angles velocities : List ℝ} {fss : List (List (Factor ℝ))}
    (hangles : angles.length = r.joints.length) (hvelocities : velocities.length = r.joints.length)
    (h : ((r.sortedJoints.zip (angles.zip velocities)).mapM fun e => do
      return [← b.jointPrior .jointAngle .anglePrior e.1 0 e.2.1,
        ← b.jointPrior .jointVel .velocityPrior e.1 0 e.2.2]) = .ok fss) :
    (∀ f ∈ fss.flatten, f.Vanishes vs) ↔
      vs.JointsHave r .jointAngle 0 angles ∧ vs.JointsHave r .jointVel 0 velocities := by
  have hlength : (angles.zip velocities).length = r.joints.length := by
    rw [List.length_zip, hangles, hvelocities, Nat.min_self]
  unfold Values.JointsHave
  rw [← Robot.atRanks_zip, ← hr.forall_zip_sortedJoints hlength]
  refine rows_vanish_iff h fun e _ fs hfs => ?_
  obtain ⟨angle, hangle, hfs⟩ := bind_eq_ok.1 hfs
  obtain ⟨velocity, hvelocity, rfl⟩ := map_eq_ok.1 hfs
  rw [List.forall_mem_cons, List.forall_mem_singleton, jointPrior_vanishes_iff hangle,
    jointPrior_vanishes_iff hvelocity]

include hr in
/-- The actuations of a time stand at its place. -/
theorem actuationPriors_vanish_iff {numSteps : Nat} {torques : List (List ℝ)}
    {gss : List (List (Factor ℝ))} (hcount : torques.length = numSteps + 1)
    (h : (torques.zipIdx.mapM fun e => b.torquePriors r e.2 e.1) = .ok gss) :
    (∀ f ∈ gss.flatten, f.Vanishes vs) ↔
      ∀ t ≤ numSteps, ∃ τ, torques[t]? = some τ ∧ vs.JointsHave r .torque t τ := by
  rw [rows_vanish_iff h fun e _ fs hfs => torquePriors_vanish_iff hr hfs]
  constructor
  · intro hrows t ht
    have htime : t < torques.length := by omega
    have hget : torques[t]? = some torques[t] := List.getElem?_eq_getElem htime
    exact ⟨torques[t], hget, hrows (torques[t], t) (List.mk_mem_zipIdx_iff_getElem?.2 hget)⟩
  · intro htimes e he
    have hget := List.mem_zipIdx_iff_getElem?.1 he
    have htime : e.2 < torques.length := (List.getElem?_eq_some_iff.1 hget).1
    obtain ⟨τ, hτ, hjoints⟩ := htimes e.2 (by omega)
    exact Option.some.inj (hτ.symm.trans hget) ▸ hjoints

include hr in
/-- **The priors of a trajectory vanish where every joint starts with its numbers and is actuated by
those of every time.** -/
theorem trajectoryPriors_vanish_iff {numSteps : Nat} {angles velocities : List ℝ}
    {torques : List (List ℝ)} {g : FactorGraph ℝ}
    (h : b.trajectoryPriors r numSteps angles velocities torques = .ok g) :
    (∀ f ∈ g.factors, f.Vanishes vs) ↔ vs.JointsHave r .jointAngle 0 angles ∧
      vs.JointsHave r .jointVel 0 velocities ∧
      ∀ t ≤ numSteps, ∃ τ, torques[t]? = some τ ∧ vs.JointsHave r .torque t τ := by
  obtain ⟨hcount, hangles, hvelocities, -⟩ :=
    (trajectoryPriors_checked hr numSteps angles velocities torques).sized_of_ok g h
  unfold trajectoryPriors at h
  rw [if_neg (not_not_intro hcount)] at h
  obtain ⟨-, -, h⟩ := bind_eq_ok.1 h
  obtain ⟨-, -, h⟩ := bind_eq_ok.1 h
  obtain ⟨fss, hfss, h⟩ := bind_eq_ok.1 h
  obtain ⟨gss, hgss, rfl⟩ := map_eq_ok.1 h
  rw [← and_assoc, ← startPriors_vanish_iff hr hangles hvelocities hfss,
    ← actuationPriors_vanish_iff hr hcount hgss]
  exact List.forall_mem_append

include hr in
/-- **Accelerations are read back in the order in which they are given.** -/
theorem jointAccelerations_eq_ok {accels : List ℝ} :
    r.jointAccelerations vs t = .ok accels ↔
      accels.length = r.joints.length ∧ vs.JointsHave r .jointAccel t accels :=
  mapM_eq_ok.trans hr.forall₂_sortedJoints

/-- **What goes in for a joint is what comes out for it.** For every valid robot, whatever the order
in which its joints are stored and whatever their ids, the priors of a state or of a trajectory
vanish exactly where the joint with the next larger id has the next number of each list, and
accelerations are read back in this order. Lists that have not one number for every joint, and
trajectories without actuations for every time, are refused; nothing else is, as long as the times
fit the keys. -/
theorem joint_vectors_in_order (hcheck : r.check = .ok ()) (b : Builder ℝ) :
    (∀ t angles velocities accels,
      Checked (t ≤ maxIndex) True (angles.length = r.joints.length ∧
          velocities.length = r.joints.length ∧ accels.length = r.joints.length)
        (b.inversePriors r t angles velocities accels) ∧
      ∀ g vs, b.inversePriors r t angles velocities accels = .ok g →
        ((∀ f ∈ g.factors, f.Vanishes vs) ↔ vs.JointsHave r .jointAngle t angles ∧
          vs.JointsHave r .jointVel t velocities ∧ vs.JointsHave r .jointAccel t accels) ∧
        ((∀ f ∈ g.factors, f.Vanishes vs) → r.jointAccelerations vs t = .ok accels)) ∧
    (∀ t angles velocities torques,
      Checked (t ≤ maxIndex) True (angles.length = r.joints.length ∧
          velocities.length = r.joints.length ∧ torques.length = r.joints.length)
        (b.forwardPriors r t angles velocities torques) ∧
      ∀ g vs, b.forwardPriors r t angles velocities torques = .ok g →
        ((∀ f ∈ g.factors, f.Vanishes vs) ↔ vs.JointsHave r .jointAngle t angles ∧
          vs.JointsHave r .jointVel t velocities ∧ vs.JointsHave r .torque t torques)) ∧
    (∀ numSteps angles velocities torques,
      Checked (numSteps ≤ maxIndex) (numSteps ≤ maxIndex) (torques.length = numSteps + 1 ∧
          angles.length = r.joints.length ∧ velocities.length = r.joints.length ∧
          ∀ τ ∈ torques, τ.length = r.joints.length)
        (b.trajectoryPriors r numSteps angles velocities torques) ∧
      ∀ g vs, b.trajectoryPriors r numSteps angles velocities torques = .ok g →
        ((∀ f ∈ g.factors, f.Vanishes vs) ↔ vs.JointsHave r .jointAngle 0 angles ∧
          vs.JointsHave r .jointVel 0 velocities ∧
          ∀ t ≤ numSteps, ∃ τ, torques[t]? = some τ ∧ vs.JointsHave r .torque t τ)) ∧
    ∀ vs t accels, r.jointAccelerations vs t = .ok accels ↔
      accels.length = r.joints.length ∧ vs.JointsHave r .jointAccel t accels := by
  have hr := Robot.check_eq_ok_iff.1 hcheck
  refine ⟨fun t angles velocities accels => ?_, fun t angles velocities torques => ?_,
    fun numSteps angles velocities torques =>
      ⟨trajectoryPriors_checked hr numSteps angles velocities torques,
        fun g vs h => trajectoryPriors_vanish_iff hr h⟩,
    fun vs t accels => jointAccelerations_eq_ok hr⟩
  · have hchecked := statePriors_checked (b := b) hr ofJoint_jointAccel .accelerations
      .jointAccelPrior t angles velocities accels
    rw [inversePriors_eq]
    refine ⟨hchecked, fun g vs h => ?_⟩
    have hiff : (∀ f ∈ g.factors, f.Vanishes vs) ↔ _ :=
      statePriors_vanish_iff hr ofJoint_jointAccel h
    obtain ⟨-, -, hlength⟩ := hchecked.sized_of_ok g h
    exact ⟨hiff, fun hzero => (jointAccelerations_eq_ok hr).2 ⟨hlength, (hiff.1 hzero).2.2⟩⟩
  · rw [forwardPriors_eq]
    exact ⟨statePriors_checked hr ofJoint_torque .torques .torquePrior t angles velocities torques,
      fun g vs h => statePriors_vanish_iff hr ofJoint_torque h⟩

/-- Three links in a row. The joint that is stored first has the larger id. -/
def shuffledArm {α : Type} [Scalar α] : Robot α :=
  ⟨[Robot.unitLink 0 "l1" (Robot.placed 0 0 0) true,
      Robot.unitLink 1 "l2" (Robot.placed 0 0 1) false,
      Robot.unitLink 2 "l3" (Robot.placed 0 0 1) false],
    [Robot.hinge 9 "j2" 1 2 (Robot.placed 0 0 1), Robot.hinge 4 "j1" 0 1 (Robot.placed 0 0 0)]⟩

/-- The motion of both joints at time zero. -/
noncomputable def shuffledMotion : Values ℝ :=
  [(.jointAngle 4 0, 1), (.jointAngle 9 0, 2), (.jointVel 4 0, 3), (.jointVel 9 0, 4),
    (.jointAccel 4 0, 5), (.jointAccel 9 0, 6)].foldl
      (fun (vs : Values ℝ) (e : Variable × ℕ) => vs.insert (slot e.1) (.scalar e.2)) .empty

/-- The numbers of the joint with the smaller id come first. -/
theorem joint_vectors_in_order_shuffledArm :
    let r : Robot ℝ := shuffledArm
    let b : Builder ℝ := ofSettings .default
    r.check = .ok () ∧ ∃ g, b.inversePriors r 0 [1, 2] [3, 4] [5, 6] = .ok g ∧
      (∀ f ∈ g.factors, f.Vanishes shuffledMotion) ∧
      r.jointAccelerations shuffledMotion 0 = .ok [5, 6] := by
  intro r b
  have hr : r.check = .ok () := rfl
  have hread : ∀ {v : Variable} {x : ℝ}, v.key (α := ℝ) = .ok (slot v) →
      shuffledMotion.get? (slot v) = some (.scalar x) → shuffledMotion.scalarOf v = .ok x :=
    fun hk hx => scalarOf_eq_ok hk (Values.scalar_eq_ok hx)
  have hget : shuffledMotion.get? (slot (.jointAngle 4 0)) = some (.scalar 1) ∧
      shuffledMotion.get? (slot (.jointAngle 9 0)) = some (.scalar 2) ∧
      shuffledMotion.get? (slot (.jointVel 4 0)) = some (.scalar 3) ∧
      shuffledMotion.get? (slot (.jointVel 9 0)) = some (.scalar 4) ∧
      shuffledMotion.get? (slot (.jointAccel 4 0)) = some (.scalar 5) ∧
      shuffledMotion.get? (slot (.jointAccel 9 0)) = some (.scalar 6) := by
    simp +decide only [shuffledMotion, List.foldl_cons, List.foldl_nil, Values.get?_insert,
      if_true, if_false, and_true, Nat.cast_one, Nat.cast_ofNat]
  obtain ⟨hq₄, hq₉, hv₄, hv₉, ha₄, ha₉⟩ := hget
  have hjoints : ∀ {quantity : Nat → Nat → Variable} {x y : ℝ},
      shuffledMotion.scalarOf (quantity 4 0) = .ok x →
        shuffledMotion.scalarOf (quantity 9 0) = .ok y →
          shuffledMotion.JointsHave r quantity 0 [x, y] := fun hx hy =>
    List.forall_mem_cons.2 ⟨⟨_, rfl, hy⟩, List.forall_mem_singleton.2 ⟨_, rfl, hx⟩⟩
  obtain ⟨hinverse, -, -, -⟩ := joint_vectors_in_order hr b
  obtain ⟨hchecked, hvanish⟩ := hinverse 0 [1, 2] [3, 4] [5, 6]
  obtain ⟨g, hg⟩ := hchecked.succeeds (Nat.zero_le _) ⟨rfl, rfl, rfl⟩
  obtain ⟨hiff, haccels⟩ := hvanish g shuffledMotion hg
  have hzero := hiff.2 ⟨hjoints (hread rfl hq₄) (hread rfl hq₉),
    hjoints (hread rfl hv₄) (hread rfl hv₉), hjoints (hread rfl ha₄) (hread rfl ha₉)⟩
  exact ⟨hr, g, hg, hzero, haccels hzero⟩

end Values

end Builder

end Articulated
