import Articulated.Proofs.Values.Reading

/-!
# Moving some variables

A move along a tangent vector changes the variables of its ordering. No variable is lost or gained,
and no value changes its kind.

* `Values.Moved`: what a sequence of moves over some variables can do.
* `Values.moved_of_retract`: a move along a tangent vector is of this kind.
* `Values.retract_alike`: a move reads and writes its own variables alone.
-/

namespace Articulated

section Frame

variable {α : Type}

/-- A move within the variables `ks`: the same variables have values of the same kinds, and outside
`ks` the same values. -/
structure Values.Moved (ks : List Key) (vs vs' : Values α) : Prop where
  kind_eq : ∀ k, (vs'.get? k).map Value.kind = (vs.get? k).map Value.kind
  unchanged : ∀ k ∉ ks, vs'.get? k = vs.get? k

namespace Values.Moved

variable {ks qs : List Key} {vs vs' vs'' : Values α}

theorem refl (ks : List Key) (vs : Values α) : Moved ks vs vs := ⟨fun _ => rfl, fun _ _ => rfl⟩

theorem trans (h : Moved ks vs vs') (h' : Moved ks vs' vs'') : Moved ks vs vs'' :=
  ⟨fun k => (h'.kind_eq k).trans (h.kind_eq k),
    fun k hk => (h'.unchanged k hk).trans (h.unchanged k hk)⟩

theorem mono (h : Moved ks vs vs') (hsub : ∀ k ∈ ks, k ∈ qs) : Moved qs vs vs' :=
  ⟨h.kind_eq, fun k hk => h.unchanged k fun hks => hk (hsub k hks)⟩

theorem isSome_eq (h : Moved ks vs vs') (k : Key) : (vs'.get? k).isSome = (vs.get? k).isSome := by
  have hkind := congrArg Option.isSome (h.kind_eq k)
  rwa [Option.isSome_map, Option.isSome_map] at hkind

theorem keys_eq (h : Moved ks vs vs') : vs'.keys = vs.keys := by
  refine Key.eq_of_ascending (KeySet.ofMap vs'.map).sorted (KeySet.ofMap vs.map).sorted fun k => ?_
  show k ∈ vs'.map.keys ↔ k ∈ vs.map.keys
  rw [KeyMap.mem_keys, KeyMap.mem_keys, ← Option.isSome_iff_exists, ← Option.isSome_iff_exists]
  exact Bool.eq_iff_iff.1 (h.isSome_eq k)

theorem dim_eq (h : Moved ks vs vs') (k : Key) : vs'.dim k = vs.dim k := by
  have hkind := h.kind_eq k
  unfold dim lookup
  cases hv : vs.get? k with
  | none =>
    rw [hv, Option.map_none, Option.map_eq_none_iff] at hkind
    rw [hkind]
  | some v =>
    obtain ⟨v', hv', hkind⟩ := Option.map_eq_some_iff.1 (hkind.trans (congrArg _ hv))
    rw [hv']
    cases v <;> cases v' <;> first | rfl | cases hkind

/-- A move keeps the number of tangent coordinates. -/
theorem totalDim_eq (h : Moved ks vs vs') : ∀ qs, vs'.totalDim qs = vs.totalDim qs
  | [] => rfl
  | q :: qs => by
    unfold totalDim
    rw [h.dim_eq q, h.totalDim_eq qs]

end Values.Moved

end Frame

section Moves

variable {α : Type} [Scalar α]

theorem Value.kind_retract (v : Value α) (δ : List α) : (v.retract δ).kind = v.kind := by
  cases v <;> rfl

namespace Values

variable {vs vs' : Values α}

/-- A value moved in place. -/
theorem moved_insert {k : Key} {v : Value α} (hv : (vs.get? k).map Value.kind = some v.kind)
    (δ : List α) : Moved [k] vs (vs.insert k (v.retract δ)) := by
  refine ⟨fun q => ?_, fun q hq => ?_⟩
  · rw [get?_insert]
    by_cases hqk : q = k
    · rw [if_pos hqk, hqk, hv, Option.map_some, Value.kind_retract]
    · rw [if_neg hqk]
  · rw [get?_insert, if_neg fun hqk => hq (List.mem_singleton.2 hqk)]

/-- The moves of an ordering, entered one by one: each finds the kind that its variable had. -/
theorem moved_of_retractInto : ∀ {ks : List Key} {δ : List α} {acc out : Values α},
    vs.retractInto ks δ acc = .ok out →
      (∀ k, (acc.get? k).map Value.kind = (vs.get? k).map Value.kind) → Moved ks acc out
  | [], δ, acc, out, h, _ => by
    obtain rfl := pure_eq_ok.1 h
    exact .refl [] acc
  | k :: ks, δ, acc, out, h, hkind => by
    obtain ⟨v, hv, h⟩ := bind_eq_ok.1 h
    have hlong : ¬ δ.length < v.dim := by
      intro hshort
      rw [if_pos hshort] at h
      cases h
    rw [if_neg hlong] at h
    have hfirst : Moved [k] acc (acc.insert k (v.retract (δ.take v.dim))) := by
      refine moved_insert ?_ _
      rw [hkind, lookup_eq_ok.1 hv, Option.map_some]
    have hrest := moved_of_retractInto h fun q => (hfirst.kind_eq q).trans (hkind q)
    refine (hfirst.mono fun q hq => ?_).trans (hrest.mono fun q => List.mem_cons_of_mem k)
    exact List.mem_singleton.1 hq ▸ List.mem_cons_self

/-- **A move along a tangent vector stays within the variables of its ordering.** -/
theorem moved_of_retract {ks : List Key} {δ : List α} (h : vs.retract ks δ = .ok vs') :
    Moved ks vs vs' := moved_of_retractInto h fun _ => rfl

theorem retractInto_alike {ks : List Key} (h : AgreeOn ks vs vs') :
    ∀ {ordering : List Key} (δ : List α) {acc acc' : Values α}, (∀ k ∈ ordering, k ∈ ks) →
      AgreeOn ks acc acc' →
        Alike (AgreeOn ks) (vs.retractInto ordering δ acc) (vs'.retractInto ordering δ acc')
  | [], _, _, _, _, hacc => .pure hacc
  | k :: ordering, δ, acc, acc', hsub, hacc => by
    obtain ⟨hk, hsub⟩ := List.forall_mem_cons.1 hsub
    unfold retractInto
    rw [h.lookup_eq hk]
    refine .bind_same fun v => ?_
    split
    · exact .error _
    · exact retractInto_alike h _ hsub (hacc.insert k _)

/-- **Assignments that agree on some variables still do after the same move over such
variables.** -/
theorem retract_alike {ks ordering : List Key} (h : AgreeOn ks vs vs')
    (hsub : ∀ k ∈ ordering, k ∈ ks) (δ : List α) :
    Alike (AgreeOn ks) (vs.retract ordering δ) (vs'.retract ordering δ) :=
  retractInto_alike h δ hsub h

end Values

end Moves

end Articulated
