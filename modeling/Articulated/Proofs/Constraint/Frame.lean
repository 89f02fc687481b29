import Articulated.Proofs.Constraint.Tolerance
import Articulated.Proofs.Solver.Frame

/-!
# What a retraction leaves alone

A retraction moves the variables of its component, except those that it holds: a basis keeps its
values. Corrections end for one of three reasons, and an outcome outside the constraints leaves two
of them: the budget is used up, or there is nothing to correct.

* `correct_frame`: the corrections over the free variables, by induction on the budget.
* `Retraction.Frame`: what is asked of an outcome.
* `retract_frame`: every outcome of each of the three ways to retract is of this kind.
-/

namespace Articulated

open Values

/-! ## 1. Corrections -/

section Corrections

variable {α : Type} [Scalar α] [Factorization α] [Runtime α] {c : Component α} {free : List Key}

/-- The corrections stay within the free variables and the budget; they end because the budget is
used up, no variable is free, or the constraints hold. -/
theorem correct_frame {ε : α} : ∀ {budget n m : Nat} {vs last : Values α},
    correct c free ε budget vs n = .ok (last, m) →
      Moved free vs last ∧ m ≤ n + budget ∧
        (m = n + budget ∨ free = [] ∨ c.constraints.compliant last = .ok true)
  | 0, n, m, vs, last, h => by
    obtain ⟨rfl, rfl⟩ := Prod.mk.inj (pure_eq_ok.1 h)
    exact ⟨.refl free vs, Nat.le_refl _, .inl rfl⟩
  | budget + 1, n, m, vs, last, h => by
    unfold correct at h
    split at h
    · rename_i hempty
      obtain ⟨rfl, rfl⟩ := Prod.mk.inj (pure_eq_ok.1 h)
      exact ⟨.refl free vs, Nat.le_add_right _ _, .inr (.inl (List.isEmpty_iff.1 hempty))⟩
    · obtain ⟨holds, hholds, h⟩ := bind_eq_ok.1 h
      split at h
      · rename_i htrue
        obtain ⟨rfl, rfl⟩ := Prod.mk.inj (pure_eq_ok.1 h)
        exact ⟨.refl free vs, Nat.le_add_right _ _, .inr (.inr (htrue ▸ hholds))⟩
      · obtain ⟨models, -, h⟩ := bind_eq_ok.1 h
        obtain ⟨j, -, h⟩ := bind_eq_ok.1 h
        obtain ⟨δ, -, h⟩ := bind_eq_ok.1 h
        obtain ⟨next, hnext, h⟩ := bind_eq_ok.1 h
        obtain ⟨hmoved, hle, hend⟩ := correct_frame h
        exact ⟨(moved_of_retract hnext).trans hmoved, by omega, hend.imp_left (by omega)⟩

/-- A retraction by corrections: what moves, how often, and why it may end outside the
constraints. -/
theorem project_frame {p : RetractParams α} {vs : Values α} {out : Retraction α}
    (h : project c free p vs = .ok out) :
    Moved free vs out.values ∧ out.iterations ≤ p.maxIterations ∧
      (out.converged = false → out.iterations = p.maxIterations ∨ free = []) := by
  obtain ⟨⟨last, n⟩, hlast, h⟩ := bind_eq_ok.1 h
  obtain ⟨hmoved, hle, hend⟩ := correct_frame hlast
  rw [Nat.zero_add] at hle hend
  obtain ⟨violation, -, h⟩ := bind_eq_ok.1 h
  obtain ⟨converged, hconverged, rfl⟩ := map_eq_ok.1 h
  refine ⟨hmoved, hle, fun hfalse => ?_⟩
  rcases hend with hspent | hnone | hholds
  · exact .inl hspent
  · exact .inr hnone
  · have htrue : true = converged := answer_unique hholds hconverged
    exact absurd (htrue.trans hfalse) Bool.true_eq_false_eq_False.elim

end Corrections

/-! ## 2. Outcomes -/

section Outcomes

variable {α : Type}

/-- The variables that a retraction holds at their values, in the component or not. -/
def Retractor.Holds : Retractor → Key → Prop
  | .overBasis basis, k => k ∈ basis
  | _, _ => False

/-- The budget of iterations that a retraction has. -/
def Retractor.budget (p : RetractParams α) : Retractor → Nat
  | .optimizing => p.optimizer.maxIterations
  | _ => p.maxIterations

/-- What the outcome of a retraction has in common with the assignment that it started from. -/
structure Retraction.Frame (c : Component α) (r : Retractor) (p : RetractParams α) (vs : Values α)
    (out : Retraction α) : Prop where
  /-- The same variables have values. -/
  keys_eq : out.values.keys = vs.keys
  /-- Every value is of the kind that it was. -/
  kind_eq : ∀ k, (out.values.get? k).map Value.kind = (vs.get? k).map Value.kind
  /-- Variables outside the component keep their values. -/
  outside_eq : ∀ k ∉ c.keys.toList, out.values.get? k = vs.get? k
  /-- Variables that are held keep their values. -/
  held_eq : ∀ k, r.Holds k → out.values.get? k = vs.get? k
  iterations_le : out.iterations ≤ r.budget p
  /-- Corrections that end outside the constraints have used up their budget, or had nothing to
  correct. -/
  exhausted : r ≠ .optimizing → out.converged = false →
    out.iterations = p.maxIterations ∨ ∀ k ∈ c.keys.toList, r.Holds k

variable {c : Component α} {r : Retractor} {p : RetractParams α} {vs : Values α}
  {out : Retraction α}

/-- Moves within the free variables of a component. -/
theorem Retraction.Frame.of_moved {free : List Key}
    (hfree : ∀ k, k ∈ free ↔ k ∈ c.keys.toList ∧ ¬ r.Holds k) (hmoved : Moved free vs out.values)
    (hle : out.iterations ≤ r.budget p)
    (hend : r ≠ .optimizing → out.converged = false →
      out.iterations = p.maxIterations ∨ free = []) : out.Frame c r p vs where
  keys_eq := hmoved.keys_eq
  kind_eq := hmoved.kind_eq
  outside_eq k hk := hmoved.unchanged k fun hkf => hk ((hfree k).1 hkf).1
  held_eq k hk := hmoved.unchanged k fun hkf => ((hfree k).1 hkf).2 hk
  iterations_le := hle
  exhausted hr hfalse := by
    refine (hend hr hfalse).imp_right fun hnone k hk => ?_
    by_contra hnot
    have hmem : k ∈ free := (hfree k).2 ⟨hk, hnot⟩
    rw [hnone] at hmem
    exact List.not_mem_nil hmem

theorem Retraction.Frame.isSome_eq (h : out.Frame c r p vs) (k : Key) :
    (out.values.get? k).isSome = (vs.get? k).isSome := by
  have hkind := congrArg Option.isSome (h.kind_eq k)
  rwa [Option.isSome_map, Option.isSome_map] at hkind

/-- The costs of a set of constraints have its variables. -/
theorem Constraints.keys_asCosts (cs : Constraints α) (sigma : α) :
    (cs.asCosts sigma).keys = cs.keys := by
  unfold FactorGraph.keys Constraints.keys Constraints.asCosts
  rw [List.map_map]
  rfl

variable [Scalar α] [Factorization α] [Runtime α]

/-- **A retraction moves the variables of its component that it does not hold, and nothing
else.** -/
theorem retract_frame {attempts : Nat} {cs : Constraints α} {r : Retractor} {p : RetractParams α}
    {vs : Values α} {out : Retraction α}
    (h : retract attempts (.ofConstraints cs) r p vs = .ok out) :
    out.Frame (.ofConstraints cs) r p vs := by
  cases r with
  | optimizing =>
    obtain ⟨solution, hsolution, h⟩ := bind_eq_ok.1 h
    obtain ⟨violation, -, h⟩ := bind_eq_ok.1 h
    obtain ⟨converged, -, rfl⟩ := map_eq_ok.1 h
    obtain ⟨hmoved, hle⟩ := optimize_frame hsolution
    rw [Component.ofConstraints, Constraints.keys_asCosts] at hmoved
    refine .of_moved (fun k => ?_) hmoved hle fun hr => absurd rfl hr
    exact ⟨fun hk => ⟨hk, id⟩, And.left⟩
  | projecting =>
    obtain ⟨hmoved, hle, hend⟩ := project_frame h
    refine .of_moved (fun k => ?_) hmoved hle fun _ => hend
    exact ⟨fun hk => ⟨hk, id⟩, And.left⟩
  | overBasis basis =>
    obtain ⟨-, -, h⟩ := bind_eq_ok.1 h
    obtain ⟨hmoved, hle, hend⟩ := project_frame h
    refine .of_moved (fun k => ?_) hmoved hle fun _ => hend
    simp only [List.mem_filter, Retractor.Holds, Bool.not_eq_true', List.contains_eq_mem,
      decide_eq_false_iff_not]

end Outcomes

/-- A variable at the end of a step of length one, beside its value and its rate at the start. -/
def unitStep : Constraints Float :=
  ⟨[⟨.isotropic (.collocation ⟨1⟩ ⟨2⟩ ⟨3⟩ ⟨4⟩ (.fixed 1) .euler) 1 1, 1e-6⟩]⟩

/-- The end of the step is off by two, and a variable has no part in it. -/
def offStep : Values Float :=
  [(⟨1⟩, .scalar 1), (⟨2⟩, .scalar 5), (⟨3⟩, .scalar 2), (⟨9⟩, .scalar 7)].foldl
    (fun vs e => vs.insert e.1 e.2) .empty

/-- With the start held, the end alone is corrected, once. -/
theorem retract_frame_unitStep :
    ∃ out, retract 0 (.ofConstraints unitStep) (.overBasis [⟨9⟩, ⟨3⟩, ⟨1⟩, ⟨3⟩]) .default offStep =
        .ok out ∧ out.converged = true ∧ out.iterations = 1 ∧
      out.Frame (.ofConstraints unitStep) (.overBasis [⟨9⟩, ⟨3⟩, ⟨1⟩, ⟨3⟩]) .default offStep := by
  have hrun : (retract 0 (.ofConstraints unitStep) (.overBasis [⟨9⟩, ⟨3⟩, ⟨1⟩, ⟨3⟩]) .default
      offStep).toOption.map (fun out => (out.converged, out.iterations)) = some (true, 1) := by
    decide +kernel
  obtain ⟨out, hout, hends⟩ := Option.map_eq_some_iff.1 hrun
  have h := toOption_eq_some_iff.1 hout
  exact ⟨out, h, congrArg Prod.fst hends, congrArg Prod.snd hends, retract_frame h⟩

end Articulated
