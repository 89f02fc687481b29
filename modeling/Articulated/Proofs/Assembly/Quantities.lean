import Articulated.Assembly.Initial
import Articulated.Proofs.Key.Codec
import Articulated.Proofs.Robot.Check
import Articulated.Proofs.Values.Reading

/-!
# Quantities of a robot and their values at rest

Which quantities a robot has is said without an order (`Robot.Has`). Assignments at rest are
entered one by one, in the order of a list or of the keys of a graph. All that is left of the order
in the end is the set of quantities that were entered (`Robot.RestOf`).

* `Variable.kind`: the kind of value that a quantity has.
* `Robot.RestOf.insert`, `Robot.RestOf.unique`: one more quantity, and that nothing else matters.
* `Robot.restSlice_spec`, `Robot.restTrajectory_spec`: a slice and a trajectory at rest exist
  exactly if their quantities fit the keys, and have exactly these.
* `Robot.restValuesOf_spec`: the values of a graph at rest are those of the quantities with a key
  in the graph.
-/

namespace Articulated

/-! ## 1. Keys and kinds -/

namespace Variable

/-- The kind of value that a quantity has. -/
def kind : Variable → ValueKind
  | pose .. => .pose
  | twist .. | twistAccel .. | wrench .. => .vector6
  | torque .. | jointAngle .. | jointVel .. | jointAccel .. | phaseDuration .. => .scalar

variable {α : Type} {v w : Variable} {k : Key}

theorem key_eq_ok : (v.key : Except (Fault α) Key) = .ok k ↔ v.key? = some k := by
  unfold key
  cases v.key? with
  | none => exact ⟨nofun, nofun⟩
  | some k' => exact ⟨fun h => congrArg some (Except.ok.inj h),
      fun h => congrArg _ (Option.some.inj h)⟩

theorem decode_of_key (h : v.key? = some k) : k.variable? = some v :=
  Key.decode_of_fields (key?_eq_some_iff.1 h).2

theorem eq_of_key (hv : v.key? = some k) (hw : w.key? = some k) : v = w :=
  Option.some.inj ((decode_of_key hv).symm.trans (decode_of_key hw))

end Variable

namespace Robot

/-! ## 2. The quantities of a robot -/

section Parts

variable {α : Type}

/-- The quantities that the robot has at a time. -/
def Has (r : Robot α) (t : Nat) : Variable → Prop
  | .pose link s | .twist link s | .twistAccel link s => link ∈ r.links.map (·.id) ∧ s = t
  | .wrench link joint s =>
    (∃ j ∈ r.joints, (j.parent = link ∨ j.child = link) ∧ j.id = joint) ∧ s = t
  | .torque joint s | .jointAngle joint s | .jointVel joint s | .jointAccel joint s =>
    joint ∈ r.joints.map (·.id) ∧ s = t
  | .phaseDuration _ => False

/-- The quantities at the times from zero to `numSteps`, and the durations of the phases. -/
def HasUntil (r : Robot α) (numSteps numPhases : Nat) (v : Variable) : Prop :=
  (∃ t ≤ numSteps, r.Has t v) ∨ ∃ p < numPhases, v = .phaseDuration p

theorem Has.index_eq {r : Robot α} {t : Nat} : ∀ {v : Variable}, r.Has t v → v.index = t
  | .pose .., h | .twist .., h | .twistAccel .., h | .wrench .., h | .torque .., h
  | .jointAngle .., h | .jointVel .., h | .jointAccel .., h => h.2
  | .phaseDuration _, h => h.elim

/-- The quantities of a valid robot have ids that fit. -/
theorem Valid.fits {r : Robot α} (hr : r.Valid) {t : Nat} (ht : t ≤ maxIndex) {v : Variable}
    (h : r.Has t v) : v.fields.Fits := by
  have hindex : v.index ≤ maxIndex := h.index_eq ▸ ht
  have hjoint : ∀ {i : Nat}, i ∈ r.joints.map (·.id) → i ≤ maxId := by
    intro i hi
    obtain ⟨j, hj, rfl⟩ := List.mem_map.1 hi
    exact hr.joint_le j hj
  cases v with
  | pose link s | twist link s | twistAccel link s =>
    exact ⟨hr.id_le_of_mem h.1, Nat.zero_le _, hindex⟩
  | wrench link joint s =>
    obtain ⟨⟨j, hj, hends, rfl⟩, -⟩ := h
    refine ⟨?_, hr.joint_le j hj, hindex⟩
    rcases hends with rfl | rfl
    · exact hr.parent_le hj
    · exact hr.child_le hj
  | torque joint s | jointAngle joint s | jointVel joint s | jointAccel joint s =>
    exact ⟨Nat.zero_le _, hjoint h.1, hindex⟩
  | phaseDuration p => exact h.elim

end Parts

/-! ## 3. Values at rest -/

section Rest

variable {α : Type} [Scalar α] {r : Robot α} {p q : Variable → Prop} {vs vs' : Values α}

/-- The assignment gives some quantities their values at rest, and no other key a value. -/
def RestOf (r : Robot α) (p : Variable → Prop) (vs : Values α) : Prop :=
  ∀ k x, vs.get? k = some x ↔ ∃ v, p v ∧ v.key? = some k ∧ r.restValue v = x

theorem kind_restValue (r : Robot α) (v : Variable) : (r.restValue v).kind = v.kind := by
  cases v <;> rfl

theorem restOf_empty : r.RestOf (fun _ => False) .empty := fun _ _ =>
  ⟨nofun, fun ⟨_, h, _⟩ => h.elim⟩

theorem RestOf.congr (h : r.RestOf p vs) (hpq : ∀ v, p v ↔ q v) : r.RestOf q vs := fun k x =>
  (h k x).trans (exists_congr fun v => and_congr_left' (hpq v))

/-- Only the quantities with keys count. -/
theorem RestOf.unique (h : r.RestOf p vs) (h' : r.RestOf q vs')
    (hpq : ∀ v k, v.key? = some k → (p v ↔ q v)) : vs = vs' := by
  refine Values.ext_get? fun k => Option.ext fun x => ?_
  rw [h, h']
  exact exists_congr fun v => and_congr_left fun hv => hpq v k hv.1

theorem RestOf.mem_keys (h : r.RestOf p vs) {k : Key} :
    k ∈ vs.keys ↔ ∃ v, p v ∧ v.key? = some k := by
  have hkey : k ∈ vs.keys ↔ ∃ x, vs.get? k = some x := KeyMap.mem_keys
  rw [hkey]
  constructor
  · intro hk
    obtain ⟨x, hx⟩ := hk
    obtain ⟨v, hv, hvk, -⟩ := (h k x).1 hx
    exact ⟨v, hv, hvk⟩
  · intro hk
    obtain ⟨v, hv, hvk⟩ := hk
    exact ⟨r.restValue v, (h k _).2 ⟨v, hv, hvk, rfl⟩⟩

/-- **One more quantity at rest.** -/
theorem RestOf.insert (h : r.RestOf p vs) {v : Variable} {k : Key} (hk : v.key? = some k) :
    r.RestOf (fun w => p w ∨ w = v) (vs.insert k (r.restValue v)) := by
  intro q x
  rw [Values.get?_insert]
  by_cases hq : q = k
  · subst hq
    rw [if_pos rfl]
    constructor
    · intro hx
      exact ⟨v, .inr rfl, hk, Option.some.inj hx⟩
    · intro hx
      obtain ⟨w, -, hw, rfl⟩ := hx
      rw [Variable.eq_of_key hk hw]
  · rw [if_neg hq, h]
    refine exists_congr fun w => ?_
    constructor
    · exact fun hw => ⟨.inl hw.1, hw.2⟩
    · intro hw
      obtain ⟨hpw | rfl, hwk, hx⟩ := hw
      · exact ⟨hpw, hwk, hx⟩
      · exact absurd (Option.some.inj (hwk.symm.trans hk)) hq

/-- Entries at rest, entered one by one. -/
theorem restOf_enter : ∀ {entries : List (Variable × Value α)} {p : Variable → Prop}
    {vs out : Values α}, (∀ e ∈ entries, e.2 = r.restValue e.1) → r.RestOf p vs →
      enter vs entries = .ok out → r.RestOf (fun v => p v ∨ v ∈ entries.map Prod.fst) out
  | [], p, vs, out, _, h, hout => by
    obtain rfl := pure_eq_ok.1 hout
    exact h.congr fun v => (or_iff_left List.not_mem_nil).symm
  | (v, x) :: entries, p, vs, out, hrest, h, hout => by
    obtain ⟨hx, hentries⟩ := List.forall_mem_cons.1 hrest
    obtain rfl : x = r.restValue v := hx
    obtain ⟨vs', hvs, hout⟩ := bind_eq_ok.1 ((List.foldlM_cons ..).symm.trans hout)
    obtain ⟨k, hk, rfl⟩ := map_eq_ok.1 hvs
    refine (restOf_enter hentries (h.insert (Variable.key_eq_ok.1 hk)) hout).congr fun w => ?_
    rw [List.map_cons, List.mem_cons, or_assoc]

omit [Scalar α] in
/-- Entries are entered exactly if their quantities fit. -/
theorem exists_enter_iff : ∀ {entries : List (Variable × Value α)} {vs : Values α},
    (∃ out, enter vs entries = .ok out) ↔ ∀ e ∈ entries, e.1.fields.Fits
  | [], vs => iff_of_true ⟨vs, rfl⟩ nofun
  | (v, x) :: entries, vs => by
    rw [List.forall_mem_cons, ← Variable.exists_key_iff]
    constructor
    · intro h
      obtain ⟨out, hout⟩ := h
      obtain ⟨vs', hvs, hout⟩ := bind_eq_ok.1 ((List.foldlM_cons ..).symm.trans hout)
      obtain ⟨k, hk, -⟩ := map_eq_ok.1 hvs
      exact ⟨⟨k, Variable.key_eq_ok.1 hk⟩, exists_enter_iff.1 ⟨out, hout⟩⟩
    · intro h
      obtain ⟨⟨k, hk⟩, hfits⟩ := h
      have hentries : ∃ out, enter (vs.insert k x) entries = .ok out := exists_enter_iff.2 hfits
      obtain ⟨out, hout⟩ := hentries
      refine ⟨out, (List.foldlM_cons ..).trans (bind_eq_ok.2 ⟨_, ?_, hout⟩)⟩
      exact map_eq_ok.2 ⟨k, Variable.key_eq_ok.2 hk, rfl⟩

/-- The entries are those of some quantities at rest. -/
structure Enumerates (r : Robot α) (entries : List (Variable × Value α)) (p : Variable → Prop) :
    Prop where
  value_eq : ∀ e ∈ entries, e.2 = r.restValue e.1
  mem_iff : ∀ v, v ∈ entries.map Prod.fst ↔ p v

theorem Enumerates.enter_spec {entries : List (Variable × Value α)} (h : r.Enumerates entries p) :
    (∀ vs, enter .empty entries = .ok vs → r.RestOf p vs) ∧
      ((∃ vs, enter .empty entries = .ok vs) ↔ ∀ v, p v → v.fields.Fits) := by
  constructor
  · intro vs hvs
    refine (restOf_enter h.value_eq restOf_empty hvs).congr fun v => ?_
    rw [false_or, h.mem_iff]
  · rw [exists_enter_iff]
    constructor
    · intro hfits v hv
      obtain ⟨e, he, rfl⟩ := List.mem_map.1 ((h.mem_iff v).2 hv)
      exact hfits e he
    · exact fun hfits e he => hfits e.1 ((h.mem_iff e.1).1 (List.mem_map_of_mem he))

theorem Valid.restEntries_enumerates (hr : r.Valid) (t : Nat) :
    r.Enumerates (r.restEntries t) (r.Has t) := by
  constructor
  · intro e he
    rcases List.mem_append.1 he with he | he
    · obtain ⟨l, hl, he⟩ := List.mem_flatMap.1 he
      have hpose : r.restValue (.pose l.id t) = .pose l.rest := by
        rw [restValue, hr.link?_eq hl]
        rfl
      simp only [linkEntries, List.mem_cons, List.not_mem_nil, or_false] at he
      rcases he with rfl | rfl | rfl
      · exact hpose.symm
      all_goals rfl
    · obtain ⟨j, hj, he⟩ := List.mem_flatMap.1 he
      simp only [jointEntries, List.mem_cons, List.not_mem_nil, or_false] at he
      rcases he with rfl | rfl | rfl | rfl | rfl | rfl <;> rfl
  · intro v
    rw [restEntries, List.map_append, List.map_flatMap, List.map_flatMap, List.mem_append,
      List.mem_flatMap, List.mem_flatMap]
    cases v <;>
      simp [linkEntries, jointEntries, Has, eq_comm, exists_or, and_or_left, or_and_right,
        ← and_assoc]

theorem Valid.trajectoryEntries_enumerates (hr : r.Valid) (numSteps numPhases : Nat) :
    r.Enumerates ((List.range (numSteps + 1)).flatMap r.restEntries
        ++ (List.range numPhases).map fun p => (.phaseDuration p, .scalar 0))
      (r.HasUntil numSteps numPhases) := by
  have hslice := hr.restEntries_enumerates
  constructor
  · intro e he
    rcases List.mem_append.1 he with he | he
    · obtain ⟨t, -, he⟩ := List.mem_flatMap.1 he
      exact (hslice t).value_eq e he
    · obtain ⟨phase, -, rfl⟩ := List.mem_map.1 he
      rfl
  · intro v
    rw [List.map_append, List.map_flatMap, List.mem_append, List.mem_flatMap, List.map_map,
      List.mem_map]
    refine or_congr (exists_congr fun t => ?_) (exists_congr fun phase => ?_)
    · rw [(hslice t).mem_iff, List.mem_range, Nat.lt_succ_iff]
    · rw [List.mem_range]
      exact and_congr_right fun _ => eq_comm

/-- **The slice at rest.** -/
theorem Valid.restSlice_spec (hr : r.Valid) (t : Nat) :
    (∀ vs, r.restSlice t = .ok vs → r.RestOf (r.Has t) vs) ∧
      ((∃ vs, r.restSlice t = .ok vs) ↔ ∀ v, r.Has t v → v.fields.Fits) :=
  (hr.restEntries_enumerates t).enter_spec

/-- **The trajectory at rest.** -/
theorem Valid.restTrajectory_spec (hr : r.Valid) (numSteps numPhases : Nat) :
    (∀ vs, r.restTrajectory numSteps numPhases = .ok vs →
        r.RestOf (r.HasUntil numSteps numPhases) vs) ∧
      ((∃ vs, r.restTrajectory numSteps numPhases = .ok vs) ↔
        ∀ v, r.HasUntil numSteps numPhases v → v.fields.Fits) :=
  (hr.trajectoryEntries_enumerates numSteps numPhases).enter_spec

/-- The variables of a list at rest, entered one by one. -/
theorem restOf_foldlM : ∀ {ks : List Key} {p : Variable → Prop} {vs : Values α},
    (∀ k ∈ ks, ∃ v : Variable, v.key? = some k) → r.RestOf p vs →
      ∃ out, ks.foldlM (m := Except (Fault α)) (fun acc k =>
          match k.variable? with
          | some v => pure (acc.insert k (r.restValue v))
          | none => throw (.missing k)) vs = .ok out ∧
        r.RestOf (fun v => p v ∨ ∃ k ∈ ks, v.key? = some k) out
  | [], p, vs, _, h => ⟨vs, rfl, h.congr fun v => by simp⟩
  | k :: ks, p, vs, hkeys, h => by
    obtain ⟨⟨v, hv⟩, hks⟩ := List.forall_mem_cons.1 hkeys
    obtain ⟨out, hout, hrest⟩ := restOf_foldlM hks (h.insert hv)
    refine ⟨out, ?_, hrest.congr fun w => ?_⟩
    · rw [List.foldlM_cons, Variable.decode_of_key hv]
      exact hout
    · have hw : w = v ↔ w.key? = some k :=
        ⟨fun heq => heq ▸ hv, fun hw => Variable.eq_of_key hw hv⟩
      rw [List.exists_mem_cons_iff, hw, or_assoc]

/-- **The values of a graph at rest**, if its variables are quantities. -/
theorem restValuesOf_spec {g : FactorGraph α}
    (hkeys : ∀ k ∈ g.keys.toList, ∃ v : Variable, v.key? = some k) :
    ∃ vs, r.restValuesOf g = .ok vs ∧
      r.RestOf (fun v => ∃ k ∈ g.keys.toList, v.key? = some k) vs := by
  obtain ⟨vs, hvs, hrest⟩ := restOf_foldlM (r := r) hkeys restOf_empty
  exact ⟨vs, hvs, hrest.congr fun v => by rw [false_or]⟩

end Rest

end Robot

end Articulated
