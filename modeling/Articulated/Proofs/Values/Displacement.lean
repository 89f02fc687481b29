import Articulated.Proofs.Spatial.RotationVector
import Articulated.Proofs.Values.Offset

/-!
# Displacements of whole assignments

A move along a tangent vector and the tangent vector between two assignments are inverse to each
other, for any mix and order of numbers, vectors and poses. Both are told block by block, so that
nothing but one value is left to look at. Numbers are exact here, and poses are compared as motions.

* `Value.local_retract_of_short`, `Value.same_retract_local`: one value.
* `Values.offset_retract`: a move is found again, if no pose is turned by a half turn or more.
* `Values.retract_offset`: the way to another assignment leads there.
* `Values.retract_local_inverse`: both, for every ordering without repetitions.
-/

namespace Articulated

/-! ## 1. One value -/

namespace Value

variable {v w : Value ℝ} {δ : List ℝ}

/-- Numbers and vectors are equal, poses are the same motion. -/
def Same : Value ℝ → Value ℝ → Prop
  | pose a, pose b => a.SameMotion b
  | v, w => v = w

/-- A pose moves rigidly. -/
def IsRigid (v : Value ℝ) : Prop := ∀ p, v = pose p → p.IsRigid

/-- A pose is not turned by a half turn or more. -/
def IsShort (v : Value ℝ) (δ : List ℝ) : Prop :=
  ∀ p, v = pose p → (SpatialVector.ofList δ).angular.norm < Real.pi

theorem Same.refl (v : Value ℝ) : v.Same v := by
  cases v with
  | scalar x => rfl
  | vector x => rfl
  | pose p => exact Pose.SameMotion.refl p

theorem IsRigid.retract (hv : v.IsRigid) (δ : List ℝ) : (v.retract δ).IsRigid := by
  cases v with
  | scalar x => exact fun _ h => nomatch h
  | vector x => exact fun _ h => nomatch h
  | pose p =>
    intro q hq
    obtain rfl := Value.pose.inj hq
    exact (hv p rfl).mul (Pose.isRigid_ofVector _)

/-- **A short move of a value is found again.** -/
theorem local_retract_of_short (hv : v.IsRigid) (hδ : δ.length = v.dim) (hshort : v.IsShort δ) :
    v.local? (v.retract δ) = some δ := by
  cases v with
  | scalar x => exact local_retract rfl hδ
  | vector x => exact local_retract rfl hδ
  | pose p =>
    have hback := Pose.localTo_mul_ofVector (hv p rfl) (hshort p rfl).le
    match δ, hδ with
    | [_, _, _, _, _, _], _ => exact congrArg (fun u => some u.toList) hback

/-- **A value moved along the tangent vector to another one is this one.** -/
theorem same_retract_local (hv : v.IsRigid) (hw : w.IsRigid) (h : v.local? w = some δ) :
    (v.retract δ).Same w := by
  cases v with
  | scalar x => exact (retract_local rfl h).2 ▸ Same.refl w
  | vector x => exact (retract_local rfl h).2 ▸ Same.refl w
  | pose p =>
    cases w with
    | scalar y | vector y => cases h
    | pose q =>
      obtain rfl := Option.some.inj h
      exact Pose.sameMotion_mul_localTo (hv p rfl) (hw q rfl)

end Value

/-! ## 2. Assignments -/

namespace Values

variable {vs vs' : Values ℝ} {ks : List Key}

/-- All poses of the assignment move rigidly. -/
def IsRigid (vs : Values ℝ) : Prop := ∀ k v, vs.get? k = some v → v.IsRigid

/-- No pose of the ordering is turned by a half turn or more. -/
def IsShort (vs : Values ℝ) (ks : List Key) (d : List ℝ) : Prop :=
  ∀ k i v, vs.StartsAt ks k i → vs.get? k = some v → v.IsShort (block d i v)

/-- The same variables have the same values, where poses are taken as motions. -/
def Same (vs vs' : Values ℝ) : Prop := ∀ k, Option.Rel Value.Same (vs.get? k) (vs'.get? k)

variable (hks : ks.Nodup) (hpresent : ∀ k ∈ ks, ∃ v, vs.get? k = some v) (hrigid : vs.IsRigid)

include hks in
theorem exists_retract {d : List ℝ} (hdim : vs.totalDim ks = .ok d.length) :
    ∃ out, vs.retract ks d = .ok out := by
  obtain ⟨out, hout, -⟩ := retractInto_blocks vs hks hdim
  exact ⟨out, hout⟩

include hks hpresent hrigid in
theorem IsRigid.of_retract {d : List ℝ} {out : Values ℝ} (hdim : vs.totalDim ks = .ok d.length)
    (h : vs.retract ks d = .ok out) : out.IsRigid := by
  obtain ⟨hother, hblocks⟩ := blocks_of_retractInto hks hdim h
  intro k w hw
  by_cases hk : k ∈ ks
  · obtain ⟨v, hv⟩ := hpresent k hk
    obtain ⟨i, hi⟩ := exists_startsAt hpresent hk
    obtain rfl := Option.some.inj ((hblocks k i v hi hv).symm.trans hw)
    exact (hrigid k v hv).retract _
  · exact hrigid k w ((hother k hk).symm.trans hw)

include hks hrigid in
/-- **A move is found again.** -/
theorem offset_retract {d : List ℝ} {out : Values ℝ} (hdim : vs.totalDim ks = .ok d.length)
    (hshort : vs.IsShort ks d) (h : vs.retract ks d = .ok out) : vs.offset? out ks = some d := by
  obtain ⟨-, hblocks⟩ := blocks_of_retractInto hks hdim h
  refine (offset_blocks_iff hdim).2 fun k i v hstart hv => ⟨_, hblocks k i v hstart hv, ?_⟩
  exact Value.local_retract_of_short (hrigid k v hv) (length_block hdim hstart hv)
    (hshort k i v hstart hv)

include hks hpresent hrigid in
/-- **The way to another assignment leads there**, as far as the ordering goes. -/
theorem retract_offset {d : List ℝ} {out : Values ℝ} (hrigid' : vs'.IsRigid)
    (hd : vs.offset? vs' ks = some d) (h : vs.retract ks d = .ok out) (k : Key) :
    Option.Rel Value.Same (out.get? k) (if k ∈ ks then vs'.get? k else vs.get? k) := by
  have hdim := totalDim_of_offset hd
  obtain ⟨hother, hblocks⟩ := blocks_of_retractInto hks hdim h
  by_cases hk : k ∈ ks
  · obtain ⟨v, hv⟩ := hpresent k hk
    obtain ⟨i, hi⟩ := exists_startsAt hpresent hk
    obtain ⟨w, hw, hlocal⟩ := (offset_blocks_iff hdim).1 hd k i v hi hv
    rw [if_pos hk, hblocks k i v hi hv, hw]
    exact .some (Value.same_retract_local (hrigid k v hv) (hrigid' k w hw) hlocal)
  · rw [if_neg hk, hother k hk]
    cases vs.get? k with
    | none => exact .none
    | some v => exact .some (Value.Same.refl v)

include hks hpresent hrigid in
/-- **Moves and tangent vectors between assignments are inverse to each other.** Along every
ordering of variables that have values, without repetitions, a tangent vector of the right length
moves the assignment: the variables and their kinds stay, and so do the values outside the ordering.
If no pose is turned by a half turn or more, the tangent vector from the old to the new assignment
is the one of the move. Any assignment of values of the same kinds has a tangent vector that leads
to its values; over all variables it leads to the assignment as a whole. -/
theorem retract_local_inverse :
    ∃ n, vs.totalDim ks = .ok n ∧
      (∀ d : List ℝ, d.length = n → ∃ out, vs.retract ks d = .ok out ∧ out.IsRigid ∧
        out.keys = vs.keys ∧
        (∀ k, (out.get? k).map Value.kind = (vs.get? k).map Value.kind) ∧
        (∀ k ∉ ks, out.get? k = vs.get? k) ∧
        (vs.IsShort ks d → vs.offset? out ks = some d)) ∧
      ∀ vs' : Values ℝ, vs'.IsRigid →
        (∀ k, (vs'.get? k).map Value.kind = (vs.get? k).map Value.kind) →
          ∃ d out, d.length = n ∧ vs.offset? vs' ks = some d ∧ vs.retract ks d = .ok out ∧
            (∀ k, Option.Rel Value.Same (out.get? k)
              (if k ∈ ks then vs'.get? k else vs.get? k)) ∧
            ((∀ k ∈ vs.keys, k ∈ ks) → out.Same vs') := by
  obtain ⟨n, hn⟩ := exists_totalDim hpresent
  refine ⟨n, hn, fun d hd => ?_, fun vs' hrigid' hkinds => ?_⟩
  · subst hd
    obtain ⟨out, hout⟩ := exists_retract hks hn
    have hmoved := moved_of_retract hout
    exact ⟨out, hout, IsRigid.of_retract hks hpresent hrigid hn hout, hmoved.keys_eq,
      hmoved.kind_eq, hmoved.unchanged, fun hshort => offset_retract hks hrigid hn hshort hout⟩
  · obtain ⟨d, hd⟩ := exists_offset hpresent fun k _ => hkinds k
    have hdim := totalDim_of_offset hd
    obtain ⟨out, hout⟩ := exists_retract hks hdim
    have hsame := retract_offset hks hpresent hrigid hrigid' hd hout
    refine ⟨d, out, answer_unique hdim hn, hd, hout, hsame, fun hall k => ?_⟩
    have hk := hsame k
    split at hk
    · exact hk
    · rename_i hks'
      have hnone : vs.get? k = none := by
        rw [← Option.not_isSome_iff_eq_none, Option.isSome_iff_exists]
        exact fun hsome => hks' (hall k (KeyMap.mem_keys.2 hsome))
      have hnone' : vs'.get? k = none := by
        rw [← Option.map_eq_none_iff (f := Value.kind), hkinds k, hnone, Option.map_none]
      rwa [hnone, ← hnone'] at hk

/-- A number and a pose. -/
noncomputable def numberAndPose (x : ℝ) (p : Pose ℝ) : Values ℝ :=
  (Values.empty.insert ⟨0⟩ (.scalar x)).insert ⟨1⟩ (.pose p)

theorem get?_numberAndPose (x : ℝ) (p : Pose ℝ) (k : Key) : (numberAndPose x p).get? k =
    if k = ⟨1⟩ then some (.pose p) else if k = ⟨0⟩ then some (.scalar x) else none := by
  rw [numberAndPose, get?_insert, get?_insert, get?_empty]

theorem isRigid_numberAndPose (x : ℝ) {p : Pose ℝ} (hp : p.IsRigid) :
    (numberAndPose x p).IsRigid := by
  intro k v hv q hq
  subst hq
  rw [get?_numberAndPose] at hv
  split at hv
  · exact Value.pose.inj (Option.some.inj hv) ▸ hp
  · split at hv <;> cases hv

/-- The pose comes first and is turned by one about the last axis and shifted; the number grows by
five. -/
theorem isShort_numberAndPose (x : ℝ) (p : Pose ℝ) :
    (numberAndPose x p).IsShort [⟨1⟩, ⟨0⟩] [0, 0, 1, 2, 3, 4, 5] := by
  intro k i v hstart hv q hq
  subst hq
  obtain ⟨rfl, rfl⟩ | ⟨j, hj, rfl⟩ := (startsAt_cons (get?_numberAndPose x p ⟨1⟩)).1 hstart
  · show Real.sqrt (0 * 0 + 0 * 0 + 1 * 1) < Real.pi
    norm_num
    linarith [Real.two_le_pi]
  · obtain ⟨rfl, -⟩ | ⟨j, hj, -⟩ := (startsAt_cons (get?_numberAndPose x p ⟨0⟩)).1 hj
    · cases (get?_numberAndPose x p ⟨0⟩).symm.trans hv
    · exact (not_startsAt_nil hj).elim

theorem retract_local_inverse_numberAndPose :
    let ks : List Key := [⟨1⟩, ⟨0⟩]
    let vs := numberAndPose 1 Pose.identity
    let vs' := numberAndPose 3 (Pose.shift ⟨1, 0, 0⟩)
    ks.Nodup ∧ (∀ k ∈ ks, ∃ v, vs.get? k = some v) ∧ vs.IsRigid ∧
      (∃ out, vs.retract ks [0, 0, 1, 2, 3, 4, 5] = .ok out ∧
        vs.offset? out ks = some [0, 0, 1, 2, 3, 4, 5]) ∧
      ∃ d out, d.length = 7 ∧ vs.offset? vs' ks = some d ∧ vs.retract ks d = .ok out ∧
        out.Same vs' := by
  intro ks vs vs'
  have hpose := get?_numberAndPose 1 Pose.identity ⟨1⟩
  have hnumber := get?_numberAndPose 1 Pose.identity ⟨0⟩
  have hks : ks.Nodup := by decide
  have hpresent : ∀ k ∈ ks, ∃ v, vs.get? k = some v :=
    List.forall_mem_cons.2 ⟨⟨_, hpose⟩, List.forall_mem_singleton.2 ⟨_, hnumber⟩⟩
  have hrigid := isRigid_numberAndPose 1 Pose.isRigid_identity
  have hkinds : ∀ k, (vs'.get? k).map Value.kind = (vs.get? k).map Value.kind := by
    intro k
    rw [get?_numberAndPose, get?_numberAndPose]
    split
    · rfl
    · split <;> rfl
  obtain ⟨n, hn, hmove, hway⟩ := retract_local_inverse hks hpresent hrigid
  obtain rfl : 7 = n := answer_unique
    ((totalDim_cons hpose).2 ⟨1, (totalDim_cons hnumber).2 ⟨0, rfl, rfl⟩, rfl⟩) hn
  obtain ⟨out, hout, -, -, -, -, hback⟩ := hmove [0, 0, 1, 2, 3, 4, 5] rfl
  obtain ⟨d, out', hd, hoffset, hout', -, hsame⟩ :=
    hway vs' (isRigid_numberAndPose 3 (Pose.isRigid_shift _)) hkinds
  refine ⟨hks, hpresent, hrigid, ⟨out, hout, hback (isShort_numberAndPose 1 _)⟩,
    d, out', hd, hoffset, hout', hsame fun k hk => ?_⟩
  obtain ⟨v, hv⟩ := KeyMap.mem_keys.1 hk
  have hv : vs.get? k = some v := hv
  rw [get?_numberAndPose] at hv
  split at hv
  · exact ‹k = _› ▸ List.mem_cons_self
  · split at hv
    · exact ‹k = ⟨0⟩› ▸ List.mem_cons_of_mem _ List.mem_cons_self
    · cases hv

end Values

end Articulated
