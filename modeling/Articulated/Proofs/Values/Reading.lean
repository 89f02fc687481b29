import Articulated.Values
import Articulated.Proofs.Fault.Outcome
import Articulated.Proofs.Key.Lookup

/-!
# Reading assignments

An assignment is seen through `Values.get?`. Two assignments may agree on some variables
(`Values.AgreeOn`), and whatever reads those alone cannot tell them apart.

* `get?_update`, `get?_subset`: what the operations on whole assignments do at one variable.
* `AgreeOn.lookup_eq`, `scalar_eq`, `vector6_eq`, `pose_eq`: agreement carries over to reading.
-/

namespace Articulated.Values

variable {α : Type}

/-! ## 1. One variable -/

theorem get?_insert (vs : Values α) (k q : Key) (v : Value α) :
    (vs.insert k v).get? q = if q = k then some v else vs.get? q :=
  KeyMap.get?_insert vs.map k q v

theorem get?_empty (k : Key) : (empty : Values α).get? k = none := rfl

theorem lookup_eq_ok {vs : Values α} {k : Key} {v : Value α} :
    vs.lookup k = .ok v ↔ vs.get? k = some v := by
  unfold lookup
  cases vs.get? k with
  | none => exact ⟨nofun, nofun⟩
  | some w =>
    exact ⟨fun h => congrArg some (Except.ok.inj h), fun h => congrArg _ (Option.some.inj h)⟩

theorem lookup_eq_error {vs : Values α} {k : Key} (h : vs.get? k = none) :
    vs.lookup k = .error (.missing k) := by
  unfold lookup
  rw [h]

/-- Whether a lookup succeeds does not depend on the value that is found. -/
theorem discard_lookup_congr {vs vs' : Values α} {k : Key}
    (h : (vs.get? k).isSome = (vs'.get? k).isSome) :
    discard (vs.lookup k) = discard (vs'.lookup k) := by
  have hsome : ∀ vs : Values α, discard (vs.lookup k) =
      if (vs.get? k).isSome then .ok () else .error (.missing k) := by
    intro vs
    unfold lookup
    cases vs.get? k <;> rfl
  rw [hsome, hsome, h]

theorem scalar_eq_ok {vs : Values α} {k : Key} {x : α} (h : vs.get? k = some (.scalar x)) :
    vs.scalar k = .ok x := bind_eq_ok.2 ⟨.scalar x, lookup_eq_ok.2 h, rfl⟩

theorem vector6_eq_ok {vs : Values α} {k : Key} {x : SpatialVector α}
    (h : vs.get? k = some (.vector x)) : vs.vector6 k = .ok x :=
  bind_eq_ok.2 ⟨.vector x, lookup_eq_ok.2 h, rfl⟩

theorem pose_eq_ok {vs : Values α} {k : Key} {x : Pose α} (h : vs.get? k = some (.pose x)) :
    vs.pose k = .ok x := bind_eq_ok.2 ⟨.pose x, lookup_eq_ok.2 h, rfl⟩

theorem lookup_of_scalar {vs : Values α} {k : Key} {x : α} (h : vs.scalar k = .ok x) :
    vs.lookup k = .ok (.scalar x) := by
  obtain ⟨v, hv, h⟩ := bind_eq_ok.1 h
  cases v with
  | vector y => cases h
  | pose y => cases h
  | scalar y =>
    obtain rfl := pure_eq_ok.1 h
    exact hv

theorem lookup_of_vector6 {vs : Values α} {k : Key} {x : SpatialVector α}
    (h : vs.vector6 k = .ok x) : vs.lookup k = .ok (.vector x) := by
  obtain ⟨v, hv, h⟩ := bind_eq_ok.1 h
  cases v with
  | scalar y => cases h
  | pose y => cases h
  | vector y =>
    obtain rfl := pure_eq_ok.1 h
    exact hv

theorem lookup_of_pose {vs : Values α} {k : Key} {x : Pose α} (h : vs.pose k = .ok x) :
    vs.lookup k = .ok (.pose x) := by
  obtain ⟨v, hv, h⟩ := bind_eq_ok.1 h
  cases v with
  | scalar y => cases h
  | vector y => cases h
  | pose y =>
    obtain rfl := pure_eq_ok.1 h
    exact hv

/-! ## 2. Whole assignments -/

theorem get?_foldl_insert (k : Key) : ∀ {l : List (Key × Value α)} {vs : Values α},
    l.Pairwise (fun e f => e.1 < f.1) →
      (l.foldl (fun acc e => acc.insert e.1 e.2) vs).get? k = (l.lookup k).or (vs.get? k)
  | [], _, _ => rfl
  | (q, v) :: rest, vs, h => by
    obtain ⟨hhead, hrest⟩ := List.pairwise_cons.1 h
    rw [List.foldl_cons, get?_foldl_insert k hrest, get?_insert, Key.lookup_cons_eq]
    by_cases hk : k = q
    · subst hk
      have hnone : rest.lookup k = none := by
        refine List.lookup_eq_none_iff.2 fun e he => ?_
        exact bne_iff_ne.2 (Key.ne_of_lt (hhead e he))
      rw [hnone, if_pos rfl, if_pos rfl, Option.none_or, Option.some_or]
    · rw [if_neg hk, if_neg hk]

/-- An update takes over the values that the other assignment has. -/
theorem get?_update (vs other : Values α) (k : Key) :
    (vs.update other).get? k = (other.get? k).or (vs.get? k) :=
  get?_foldl_insert k other.map.sorted

theorem get?_subsetInto {vs : Values α} (k : Key) : ∀ {ks : List Key} {acc own : Values α},
    ks.foldlM (fun acc k => do return acc.insert k (← vs.lookup k)) acc = Except.ok own →
      own.get? k = if k ∈ ks then vs.get? k else acc.get? k
  | [], acc, own, h => by
    rw [List.foldlM_nil, pure_eq_ok] at h
    rw [h, if_neg List.not_mem_nil]
  | q :: ks, acc, own, h => by
    rw [List.foldlM_cons, bind_eq_ok] at h
    obtain ⟨acc', hacc, h⟩ := h
    obtain ⟨v, hv, rfl⟩ := map_eq_ok.1 hacc
    rw [get?_subsetInto k h, get?_insert]
    by_cases hks : k ∈ ks
    · rw [if_pos hks, if_pos (List.mem_cons_of_mem q hks)]
    · by_cases hk : k = q
      · subst hk
        rw [if_neg hks, if_pos rfl, if_pos List.mem_cons_self, lookup_eq_ok.1 hv]
      · have hnot : k ∉ q :: ks := fun h => (List.mem_cons.1 h).elim hk hks
        rw [if_neg hks, if_neg hk, if_neg hnot]

/-- A restriction has the values of its variables and no others. -/
theorem get?_subset {vs own : Values α} {ks : List Key} (h : vs.subset ks = .ok own) (k : Key) :
    own.get? k = if k ∈ ks then vs.get? k else none := by
  rw [get?_subsetInto k h, get?_empty]

theorem defined_of_subsetInto {vs : Values α} {k : Key} : ∀ {ks : List Key} {acc own : Values α},
    ks.foldlM (fun acc k => do return acc.insert k (← vs.lookup k)) acc = Except.ok own →
      k ∈ ks → ∃ v, vs.get? k = some v
  | [], _, _, _, hk => absurd hk List.not_mem_nil
  | q :: ks, acc, own, h, hk => by
    rw [List.foldlM_cons, bind_eq_ok] at h
    obtain ⟨acc', hacc, h⟩ := h
    obtain ⟨v, hv, -⟩ := map_eq_ok.1 hacc
    rcases List.mem_cons.1 hk with rfl | hk
    · exact ⟨v, lookup_eq_ok.1 hv⟩
    · exact defined_of_subsetInto h hk

/-- Only variables with values can be restricted to. -/
theorem defined_of_subset {vs own : Values α} {ks : List Key} {k : Key}
    (h : vs.subset ks = .ok own) (hk : k ∈ ks) : ∃ v, vs.get? k = some v :=
  defined_of_subsetInto h hk

/-- Assignments that give every variable the same value are equal. -/
theorem ext_get? {vs vs' : Values α} (h : ∀ k, vs.get? k = vs'.get? k) : vs = vs' :=
  Values.ext (KeyMap.ext_get? h)

/-! ## 3. Agreement -/

/-- Both assignments give the variables the same values, or none. -/
def AgreeOn (ks : List Key) (vs vs' : Values α) : Prop := ∀ k ∈ ks, vs.get? k = vs'.get? k

section Agreement

variable {vs vs' vs'' : Values α} {ks : List Key} {k : Key}

theorem AgreeOn.mono {qs : List Key} (h : AgreeOn ks vs vs') (hsub : ∀ k ∈ qs, k ∈ ks) :
    AgreeOn qs vs vs' := fun k hk => h k (hsub k hk)

theorem AgreeOn.refl (ks : List Key) (vs : Values α) : AgreeOn ks vs vs := fun _ _ => rfl

theorem AgreeOn.trans (h : AgreeOn ks vs vs') (h' : AgreeOn ks vs' vs'') : AgreeOn ks vs vs'' :=
  fun k hk => (h k hk).trans (h' k hk)

theorem AgreeOn.insert (h : AgreeOn ks vs vs') (k : Key) (v : Value α) :
    AgreeOn ks (vs.insert k v) (vs'.insert k v) := by
  intro q hq
  rw [get?_insert, get?_insert, h q hq]

/-- A variable outside makes no difference. -/
theorem agreeOn_insert (hk : k ∉ ks) (vs : Values α) (v : Value α) :
    AgreeOn ks (vs.insert k v) vs := by
  intro q hq
  have hne : q ≠ k := fun heq => hk (heq ▸ hq)
  rw [get?_insert, if_neg hne]

theorem AgreeOn.lookup_eq (h : AgreeOn ks vs vs') (hk : k ∈ ks) : vs.lookup k = vs'.lookup k := by
  unfold lookup
  rw [h k hk]

theorem AgreeOn.scalar_eq (h : AgreeOn ks vs vs') (hk : k ∈ ks) : vs.scalar k = vs'.scalar k := by
  unfold scalar
  rw [h.lookup_eq hk]

theorem AgreeOn.vector6_eq (h : AgreeOn ks vs vs') (hk : k ∈ ks) :
    vs.vector6 k = vs'.vector6 k := by
  unfold vector6
  rw [h.lookup_eq hk]

theorem AgreeOn.pose_eq (h : AgreeOn ks vs vs') (hk : k ∈ ks) : vs.pose k = vs'.pose k := by
  unfold pose
  rw [h.lookup_eq hk]

theorem AgreeOn.dim_eq (h : AgreeOn ks vs vs') (hk : k ∈ ks) : vs.dim k = vs'.dim k := by
  unfold dim
  rw [h.lookup_eq hk]

theorem AgreeOn.totalDim_eq : ∀ {ks : List Key}, AgreeOn ks vs vs' →
    vs.totalDim ks = vs'.totalDim ks
  | [], _ => rfl
  | k :: ks, h => by
    unfold totalDim
    rw [h.dim_eq List.mem_cons_self, (h.mono fun _ => List.mem_cons_of_mem k).totalDim_eq]

/-- Restrictions to variables on which two assignments agree are the same. -/
theorem AgreeOn.subset_eq (h : AgreeOn ks vs vs') : vs.subset ks = vs'.subset ks := by
  unfold subset
  generalize (empty : Values α) = acc
  induction ks generalizing acc with
  | nil => rfl
  | cons k ks ih =>
    rw [List.foldlM_cons, List.foldlM_cons, h.lookup_eq List.mem_cons_self]
    exact congrArg _ (funext fun acc' => ih (h.mono fun _ => List.mem_cons_of_mem k) acc')

end Agreement

end Articulated.Values
