import Articulated.Proofs.Assembly.Layout
import Articulated.Robot.Model
import Mathlib.Algebra.BigOperators.Group.List.Basic
import Mathlib.Algebra.GroupWithZero.Nat
import Mathlib.Data.List.Perm.Basic

/-!
# The tiles of a trajectory over phases

A trajectory over phases is put together from three places: the first and the last slice, the
slices strictly inside phases, and the graphs at the times between phases. Read by time it is
simpler. Every time from zero to the end has one slice, that of the robot of its phase or the graph
given for it, and every time before the end has one step.

* `Builder.phaseAt`: the phase of a time.
* `Builder.tiling`: the slices and steps in the order of time.
* `Builder.phaseStarts_eq`, `Builder.ownTimes_perm`: the steps and slices of all phases stand at
  the times that they should, each once, by induction on the phases.
* `Builder.multiPhase_tiles`: a trajectory is refused exactly if the phases are ill-formed, and
  else has the factors of the tiling.
-/

namespace Articulated

namespace Builder

/-! ## 1. The phase of a time -/

/-- The number of the phase of a time: the phase with the step that starts then, and the last phase
at the end. -/
def phaseAt : List Nat → Nat → Nat
  | steps :: next :: rest, t => if t < steps then 0 else phaseAt (next :: rest) (t - steps) + 1
  | _, _ => 0

theorem phaseAt_of_lt {steps : Nat} {rest : List Nat} {t : Nat} (h : t < steps) :
    phaseAt (steps :: rest) t = 0 := by
  cases rest with
  | nil => rfl
  | cons next rest => rw [phaseAt, if_pos h]

theorem phaseAt_add {steps : Nat} {rest : List Nat} (hrest : rest ≠ []) (t : Nat) :
    phaseAt (steps :: rest) (steps + t) = phaseAt rest t + 1 := by
  cases rest with
  | nil => exact absurd rfl hrest
  | cons next rest => rw [phaseAt, if_neg (by omega), Nat.add_sub_cancel_left]

theorem phaseAt_lt : ∀ {phaseSteps : List Nat}, phaseSteps ≠ [] → ∀ t,
    phaseAt phaseSteps t < phaseSteps.length
  | [], h, _ => absurd rfl h
  | [_], _, _ => Nat.one_pos
  | steps :: next :: rest, _, t => by
    unfold phaseAt
    split
    · exact Nat.succ_pos _
    · exact Nat.succ_lt_succ (phaseAt_lt (List.cons_ne_nil next rest) _)

/-- The end belongs to the last phase. -/
theorem phaseAt_sum : ∀ {phaseSteps : List Nat}, phaseSteps ≠ [] →
    phaseAt phaseSteps phaseSteps.sum + 1 = phaseSteps.length
  | [], h => absurd rfl h
  | [_], _ => rfl
  | steps :: next :: rest, _ => by
    rw [List.sum_cons, phaseAt_add (List.cons_ne_nil next rest),
      phaseAt_sum (List.cons_ne_nil next rest)]
    rfl

/-- Every phase is the phase of some time before the end. -/
theorem exists_time_of_phase : ∀ {phaseSteps : List Nat} {phase : Nat}, 0 ∉ phaseSteps →
    phase < phaseSteps.length → ∃ t < phaseSteps.sum, phaseAt phaseSteps t = phase
  | steps :: rest, 0, hsteps, _ => by
    have hpos : 0 < steps := Nat.pos_of_ne_zero fun h => hsteps (h ▸ List.mem_cons_self)
    exact ⟨0, by rw [List.sum_cons]; omega, phaseAt_of_lt hpos⟩
  | steps :: rest, phase + 1, hsteps, h => by
    have hphase : phase < rest.length := Nat.lt_of_succ_lt_succ h
    have hrest : rest ≠ [] := List.ne_nil_of_length_pos (Nat.zero_lt_of_lt hphase)
    obtain ⟨t, ht, rfl⟩ :=
      exists_time_of_phase (fun hzero => hsteps (List.mem_cons_of_mem _ hzero)) hphase
    exact ⟨steps + t, by rw [List.sum_cons]; omega, phaseAt_add hrest t⟩

/-! ## 2. Tilings -/

section Tiles

variable {α : Type}

/-- The robot of the phase of a time. -/
def robotAt (robots : List (Robot α)) (phaseSteps : List Nat) (t : Nat) : Robot α :=
  robots.getD (phaseAt phaseSteps t) .empty

/-- The graph that is given for a time, if it is one of those between phases. The given graphs
belong to these times in order. -/
def transitionAt? (phaseSteps : List Nat) (given : Option (List (FactorGraph α))) (t : Nat) :
    Option (FactorGraph α) :=
  given.bind fun graphs => ((boundaryTimes phaseSteps).zip graphs).lookup t

/-- Phases that a trajectory can be made of: some, with a robot and at least one step each, and a
graph for every time between two phases, if graphs are given. -/
structure WellPhased (robots : List (Robot α)) (phaseSteps : List Nat)
    (given : Option (List (FactorGraph α))) : Prop where
  nonempty : phaseSteps ≠ []
  robots_length : robots.length = phaseSteps.length
  steps_ne_zero : 0 ∉ phaseSteps
  given_length : ∀ graphs, given = some graphs → graphs.length = phaseSteps.length - 1

variable [Scalar α] [Runtime α]

/-- What stands at a time: the graph that is given for it, or the slice of the robot of its
phase. -/
def sliceAt (b : Builder α) (robots : List (Robot α)) (phaseSteps : List Nat)
    (given : Option (List (FactorGraph α))) (gravity : Vec3 α) (planar : Option (Vec3 α))
    (t : Nat) : Except (Fault α) (FactorGraph α) :=
  match transitionAt? phaseSteps given t with
  | some graph => pure graph
  | none => b.slice (robotAt robots phaseSteps t) t gravity planar

omit [Scalar α] in
/-- The step that starts at a time, of the robot and with the duration of its phase. -/
def stepAt (b : Builder α) (robots : List (Robot α)) (phaseSteps : List Nat)
    (scheme : CollocationScheme) (t : Nat) : Except (Fault α) (FactorGraph α) :=
  b.phaseCollocation (robotAt robots phaseSteps t) t (phaseAt phaseSteps t) scheme

/-- One slice for every time from zero to the end, and one step for every time before the end. -/
def tiling (b : Builder α) (robots : List (Robot α)) (phaseSteps : List Nat)
    (given : Option (List (FactorGraph α))) (scheme : CollocationScheme) (gravity : Vec3 α)
    (planar : Option (Vec3 α)) : Except (Fault α) (FactorGraph α) := do
  let slices ← (List.range (phaseSteps.sum + 1)).mapM
    (b.sliceAt robots phaseSteps given gravity planar)
  let steps ← (List.range phaseSteps.sum).mapM (b.stepAt robots phaseSteps scheme)
  return .join (slices ++ steps)

end Tiles

/-! ## 3. Times -/

section Times

open scoped List

variable {α : Type}

/-- The steps of all phases, read by time. -/
theorem phaseStarts_eq : ∀ (phases : List (Robot α × Nat)) (start phase : Nat),
    phaseStarts start phase phases = (List.range (phases.map Prod.snd).sum).map fun i =>
      (robotAt (phases.map Prod.fst) (phases.map Prod.snd) i, start + i,
        phase + phaseAt (phases.map Prod.snd) i)
  | [], _, _ => rfl
  | (r, steps) :: rest, start, phase => by
    unfold phaseStarts
    rw [phaseStarts_eq rest, List.map_cons, List.map_cons, List.sum_cons, List.range_add,
      List.map_append, List.map_map]
    refine congrArg₂ (· ++ ·) (List.map_congr_left fun i hi => ?_)
      (List.map_congr_left fun i hi => ?_)
    · rw [robotAt, phaseAt_of_lt (List.mem_range.1 hi)]
      rfl
    · have hrest : rest.map Prod.snd ≠ [] := by
        intro hnil
        rw [hnil] at hi
        exact absurd (List.mem_range.1 hi) (Nat.not_lt_zero i)
      show _ = (robotAt _ _ (steps + i), start + (steps + i), phase + phaseAt _ (steps + i))
      rw [robotAt, robotAt, phaseAt_add hrest, List.getD_cons_succ, Nat.add_assoc, Nat.add_assoc,
        Nat.add_comm 1]

/-- The last of the times at which phases end is the end. -/
theorem phaseEnds_eq : ∀ {phaseSteps : List Nat}, phaseSteps ≠ [] → ∀ start,
    phaseEnds start phaseSteps = (phaseEnds start phaseSteps).dropLast ++ [start + phaseSteps.sum]
  | [], h, _ => absurd rfl h
  | [steps], _, start => rfl
  | steps :: next :: rest, _, start => by
    have ih := phaseEnds_eq (List.cons_ne_nil next rest) (start + steps)
    rw [Nat.add_assoc, ← List.sum_cons] at ih
    unfold phaseEnds
    rw [List.dropLast_cons_of_ne_nil (by simp [phaseEnds]), List.cons_append, ← ih]

theorem length_phaseEnds : ∀ (phaseSteps : List Nat) (start : Nat),
    (phaseEnds start phaseSteps).length = phaseSteps.length
  | [], _ => rfl
  | steps :: rest, start => congrArg Nat.succ (length_phaseEnds rest (start + steps))

theorem length_boundaryTimes (phaseSteps : List Nat) :
    (boundaryTimes phaseSteps).length = phaseSteps.length - 1 := by
  rw [boundaryTimes, List.length_dropLast, length_phaseEnds]

/-- The times strictly inside phases, the start and the times at which phases end are all times. -/
theorem innerTimes_perm : ∀ {phases : List (Robot α × Nat)} {start : Nat},
    0 ∉ phases.map Prod.snd →
      ((innerSlices start phases).map Prod.snd ++
        start :: phaseEnds start (phases.map Prod.snd)) ~
          List.range' start ((phases.map Prod.snd).sum + 1)
  | [], _, _ => .refl _
  | (r, steps) :: rest, start, hsteps => by
    rw [List.map_cons, List.mem_cons, not_or] at hsteps
    have ih := @innerTimes_perm rest (start + steps) hsteps.2
    have hinner : (innerSlices start ((r, steps) :: rest)).map Prod.snd =
        List.range' (start + 1) (steps - 1) ++ (innerSlices (start + steps) rest).map Prod.snd := by
      rw [innerSlices, List.map_append, List.map_map, List.range'_eq_map_range]
      rfl
    have hjoin : start + 1 + (steps - 1) = start + steps := by omega
    have hcount : steps - 1 + ((rest.map Prod.snd).sum + 1) = steps + (rest.map Prod.snd).sum := by
      omega
    rw [hinner, List.map_cons, phaseEnds, List.sum_cons, List.range'_succ]
    calc (List.range' (start + 1) (steps - 1) ++ (innerSlices (start + steps) rest).map Prod.snd) ++
            start :: (start + steps) :: phaseEnds (start + steps) (rest.map Prod.snd)
        ~ start :: (List.range' (start + 1) (steps - 1) ++
            ((innerSlices (start + steps) rest).map Prod.snd ++
              (start + steps) :: phaseEnds (start + steps) (rest.map Prod.snd))) :=
          List.append_assoc _ _ _ ▸ List.perm_middle
      _ ~ start :: (List.range' (start + 1) (steps - 1) ++
            List.range' (start + steps) ((rest.map Prod.snd).sum + 1)) :=
          (ih.append_left _).cons start
      _ = start :: List.range' (start + 1) (steps + (rest.map Prod.snd).sum) := by
          rw [← hjoin, List.range'_append_1, hcount]

/-- **The times of the slices of phases and the times between phases are all times, each once.** -/
theorem ownTimes_perm {phases : List (Robot α × Nat)} (hphases : phases ≠ [])
    (hsteps : 0 ∉ phases.map Prod.snd) :
    ((ownSlices phases).map Prod.snd ++ boundaryTimes (phases.map Prod.snd)) ~
      List.range ((phases.map Prod.snd).sum + 1) := by
  have hends := phaseEnds_eq (mt List.map_eq_nil_iff.1 hphases : phases.map Prod.snd ≠ []) 0
  rw [Nat.zero_add] at hends
  have hown : (ownSlices phases).map Prod.snd =
      0 :: (innerSlices 0 phases).map Prod.snd ++ [(phases.map Prod.snd).sum] := by
    obtain ⟨first, rest, rfl⟩ := List.exists_cons_of_ne_nil hphases
    unfold ownSlices
    rw [List.head?_cons, List.getLast?_eq_some_getLast hphases, List.map_append, List.map_append,
      List.sum_eq_foldr]
    rfl
  rw [hown, boundaryTimes, List.range_eq_range']
  calc (0 :: (innerSlices 0 phases).map Prod.snd ++ [(phases.map Prod.snd).sum]) ++
          (phaseEnds 0 (phases.map Prod.snd)).dropLast
      ~ (0 :: (innerSlices 0 phases).map Prod.snd) ++
          ((phaseEnds 0 (phases.map Prod.snd)).dropLast ++ [(phases.map Prod.snd).sum]) := by
        rw [List.append_assoc]
        exact List.perm_append_comm.append_left _
    _ = 0 :: ((innerSlices 0 phases).map Prod.snd ++ phaseEnds 0 (phases.map Prod.snd)) := by
        rw [← hends, List.cons_append]
    _ ~ (innerSlices 0 phases).map Prod.snd ++ 0 :: phaseEnds 0 (phases.map Prod.snd) :=
        List.perm_middle.symm
    _ ~ List.range' 0 ((phases.map Prod.snd).sum + 1) := innerTimes_perm hsteps

/-! ## 4. Robots -/

/-- A slice strictly inside a phase, like every step, is of the robot of its phase. -/
theorem mem_phaseStarts_of_inner : ∀ {phases : List (Robot α × Nat)} {start : Nat} (phase : Nat)
    {e : Robot α × Nat}, e ∈ innerSlices start phases →
      ∃ q, (e.1, e.2, q) ∈ phaseStarts start phase phases
  | (r, steps) :: rest, start, phase, e, he => by
    unfold phaseStarts
    rcases List.mem_append.1 he with he | he
    · obtain ⟨i, hi, rfl⟩ := List.mem_map.1 he
      have hlt : i + 1 < steps := by have := List.mem_range.1 hi; omega
      refine ⟨phase, List.mem_append_left _ (List.mem_map.2 ⟨i + 1, List.mem_range.2 hlt, ?_⟩)⟩
      rw [Nat.add_assoc, Nat.add_comm 1]
    · obtain ⟨q, hq⟩ := mem_phaseStarts_of_inner (phase + 1) he
      exact ⟨q, List.mem_append_right _ hq⟩

/-- The first time of every phase is one of its steps. -/
theorem mem_phaseStarts_of_first : ∀ {phases : List (Robot α × Nat)} {start : Nat} (phase : Nat)
    {e : Robot α × Nat}, 0 ∉ phases.map Prod.snd →
      e ∈ (phases.map Prod.fst).zip (start :: phaseEnds start (phases.map Prod.snd)) →
        ∃ q, (e.1, e.2, q) ∈ phaseStarts start phase phases
  | (r, steps) :: rest, start, phase, e, hsteps, he => by
    rw [List.map_cons, List.mem_cons, not_or] at hsteps
    unfold phaseStarts
    rw [List.map_cons, List.map_cons, phaseEnds, List.zip_cons_cons, List.mem_cons] at he
    rcases he with rfl | he
    · have hpos : 0 < steps := Nat.pos_of_ne_zero (Ne.symm hsteps.1)
      exact ⟨phase, List.mem_append_left _ (List.mem_map.2 ⟨0, List.mem_range.2 hpos, rfl⟩)⟩
    · obtain ⟨q, hq⟩ := mem_phaseStarts_of_first (phase + 1) hsteps.2 he
      exact ⟨q, List.mem_append_right _ hq⟩

/-- A step stands at a time before the end, with the robot of that time. -/
theorem robotAt_of_mem {phases : List (Robot α × Nat)} {r : Robot α} {t q : Nat}
    (h : (r, t, q) ∈ phaseStarts 0 0 phases) :
    r = robotAt (phases.map Prod.fst) (phases.map Prod.snd) t := by
  rw [phaseStarts_eq] at h
  obtain ⟨i, -, heq⟩ := List.mem_map.1 h
  obtain ⟨hr, heq⟩ := Prod.mk.inj heq
  obtain ⟨ht, -⟩ := Prod.mk.inj heq
  rw [← hr, ← ht, Nat.zero_add]

/-- The slices of phases are of the robots of their times. -/
theorem ownSlices_robot {phases : List (Robot α × Nat)} (hsteps : 0 ∉ phases.map Prod.snd)
    {e : Robot α × Nat} (he : e ∈ ownSlices phases) :
    e.1 = robotAt (phases.map Prod.fst) (phases.map Prod.snd) e.2 := by
  have hphases : phases ≠ [] := by
    rintro rfl
    exact List.not_mem_nil he
  unfold ownSlices at he
  rw [List.getLast?_eq_some_getLast hphases] at he
  rcases List.mem_append.1 he with he | he
  · rcases List.mem_append.1 he with he | he
    · obtain ⟨first, rest, rfl⟩ := List.exists_cons_of_ne_nil hphases
      obtain rfl := List.mem_singleton.1 he
      have hpos : 0 < first.2 :=
        Nat.pos_of_ne_zero fun hzero => hsteps (hzero ▸ List.mem_cons_self)
      rw [robotAt, List.map_cons, List.map_cons, phaseAt_of_lt hpos]
      rfl
    · obtain ⟨q, hq⟩ := mem_phaseStarts_of_inner 0 he
      exact robotAt_of_mem hq
  · obtain rfl := List.mem_singleton.1 he
    have hend := phaseAt_sum (mt List.map_eq_nil_iff.1 hphases : phases.map Prod.snd ≠ [])
    rw [List.length_map] at hend
    show (phases.getLast hphases).1 = (phases.map Prod.fst).getD
      (phaseAt (phases.map Prod.snd) (phases.map Prod.snd).sum) .empty
    rw [Nat.eq_sub_of_add_eq hend, List.getD_eq_getElem?_getD, List.getElem?_map,
      ← List.getLast?_eq_getElem?, List.getLast?_eq_some_getLast hphases]
    rfl

/-- The robot that is entered between two phases is the robot of that time. -/
theorem transitions_robot {phases : List (Robot α × Nat)} (hsteps : 0 ∉ phases.map Prod.snd)
    {e : Robot α × Nat}
    (he : e ∈ (phases.map Prod.fst).tail.zip (boundaryTimes (phases.map Prod.snd))) :
    e.1 = robotAt (phases.map Prod.fst) (phases.map Prod.snd) e.2 := by
  cases phases with
  | nil => exact absurd he List.not_mem_nil
  | cons first rest =>
    have hfirst : e ∈ ((first :: rest).map Prod.fst).zip
        (0 :: phaseEnds 0 ((first :: rest).map Prod.snd)) := by
      have hlength : (rest.map Prod.fst).length =
          (boundaryTimes ((first :: rest).map Prod.snd)).length := by
        rw [length_boundaryTimes, List.length_map, List.length_map]
        rfl
      rw [phaseEnds_eq (by exact List.cons_ne_nil _ _), List.map_cons, List.zip_cons_cons]
      refine List.mem_cons_of_mem _ ?_
      rw [← List.append_nil (rest.map Prod.fst), ← boundaryTimes, List.zip_append hlength]
      exact List.mem_append_left _ he
    obtain ⟨q, hq⟩ := mem_phaseStarts_of_first 0 hsteps hfirst
    exact robotAt_of_mem hq

end Times

/-! ## 5. Refusals -/

section Refusals

variable {α : Type} {robots : List (Robot α)} {phaseSteps : List Nat}
  {given : Option (List (FactorGraph α))}

/-- The check of phases accepts them or refuses them as a trajectory. -/
theorem checkPhases_cases (robots : List (Robot α)) (phaseSteps : List Nat) :
    (checkPhases robots phaseSteps = .ok () ∧ phaseSteps ≠ [] ∧
      robots.length = phaseSteps.length ∧ 0 ∉ phaseSteps) ∨
    ((∃ cause, checkPhases robots phaseSteps = .error (.trajectory cause)) ∧
      ¬ (phaseSteps ≠ [] ∧ robots.length = phaseSteps.length ∧ 0 ∉ phaseSteps)) := by
  unfold checkPhases
  by_cases hnil : phaseSteps = []
  · rw [if_pos (List.isEmpty_iff.2 hnil)]
    exact .inr ⟨⟨_, rfl⟩, fun h => h.1 hnil⟩
  rw [if_neg (mt List.isEmpty_iff.1 hnil)]
  by_cases hlength : robots.length = phaseSteps.length
  · rw [if_neg (not_not_intro hlength)]
    cases hfind : phaseSteps.findIdx? (· == 0) with
    | none =>
      refine .inl ⟨rfl, hnil, hlength, fun hzero => ?_⟩
      exact absurd (List.findIdx?_eq_none_iff.1 hfind 0 hzero) (by decide)
    | some phase =>
      refine .inr ⟨⟨_, rfl⟩, fun h => h.2.2 ?_⟩
      obtain ⟨hlt, hzero, -⟩ := List.findIdx?_eq_some_iff_getElem.1 hfind
      exact eq_of_beq hzero ▸ List.getElem_mem hlt
  · rw [if_pos hlength]
    exact .inr ⟨⟨_, rfl⟩, fun h => hlength h.2.1⟩

variable [Scalar α] [Runtime α] {b : Builder α} {scheme : CollocationScheme} {gravity : Vec3 α}
  {planar : Option (Vec3 α)}

/-- Phases that are not well-formed are refused as a trajectory. -/
theorem multiPhase_refused (h : ¬ WellPhased robots phaseSteps given) :
    ∃ cause, b.multiPhase robots phaseSteps given scheme gravity planar =
      .error (.trajectory cause) := by
  rcases checkPhases_cases robots phaseSteps with ⟨hok, hnil, hlength, hzero⟩ | ⟨⟨cause, he⟩, -⟩
  · unfold multiPhase
    rw [hok]
    cases given with
    | none => exact absurd ⟨hnil, hlength, hzero, nofun⟩ h
    | some graphs =>
      have hcount : ¬ graphs.length = phaseSteps.length - 1 := fun hcount =>
        h ⟨hnil, hlength, hzero, fun graphs' heq => Option.some.inj heq ▸ hcount⟩
      refine ⟨.transitionCount graphs.length phaseSteps.length, ?_⟩
      show (b.chosenTransitions robots phaseSteps (some graphs) gravity planar >>= _) = _
      rw [chosenTransitions, if_neg hcount]
      rfl
  · unfold multiPhase
    rw [he]
    exact ⟨cause, rfl⟩

/-- Phases that are assembled are well-formed. -/
theorem wellPhased_of_multiPhase {g : FactorGraph α}
    (h : b.multiPhase robots phaseSteps given scheme gravity planar = .ok g) :
    WellPhased robots phaseSteps given := by
  by_contra hnot
  obtain ⟨cause, hrefused⟩ : ∃ cause, b.multiPhase robots phaseSteps given scheme gravity planar =
      .error (.trajectory cause) := multiPhase_refused hnot
  cases h.symm.trans hrefused

end Refusals

/-! ## 6. Assembly -/

section Assembly

variable {α : Type} {robots : List (Robot α)} {phaseSteps : List Nat}
  {given : Option (List (FactorGraph α))}

theorem WellPhased.checkPhases_eq_ok (h : WellPhased robots phaseSteps given) :
    checkPhases robots phaseSteps = .ok () := by
  rcases checkPhases_cases robots phaseSteps with ⟨hok, -⟩ | ⟨-, hnot⟩
  · exact hok
  · exact absurd ⟨h.nonempty, h.robots_length, h.steps_ne_zero⟩ hnot

theorem WellPhased.map_fst (h : WellPhased robots phaseSteps given) :
    (robots.zip phaseSteps).map Prod.fst = robots :=
  List.map_fst_zip (Nat.le_of_eq h.robots_length)

theorem WellPhased.map_snd (h : WellPhased robots phaseSteps given) :
    (robots.zip phaseSteps).map Prod.snd = phaseSteps :=
  List.map_snd_zip (Nat.le_of_eq h.robots_length.symm)

/-- The robot of a time is one of the robots. -/
theorem WellPhased.robotAt_mem (h : WellPhased robots phaseSteps given) (t : Nat) :
    robotAt robots phaseSteps t ∈ robots := by
  have hlt : phaseAt phaseSteps t < robots.length := by
    rw [h.robots_length]
    exact phaseAt_lt h.nonempty t
  rw [robotAt, List.getD_eq_getElem?_getD, List.getElem?_eq_getElem hlt]
  exact List.getElem_mem hlt

theorem WellPhased.times_perm (h : WellPhased robots phaseSteps given) :
    ((ownSlices (robots.zip phaseSteps)).map Prod.snd ++ boundaryTimes phaseSteps).Perm
      (List.range (phaseSteps.sum + 1)) := by
  have hsteps := h.steps_ne_zero
  have hsnd := h.map_snd
  rw [← hsnd] at hsteps
  have hphases : robots.zip phaseSteps ≠ [] :=
    fun hnil => h.nonempty (by rw [← hsnd, hnil]; rfl)
  have hperm := ownTimes_perm hphases hsteps
  rwa [hsnd] at hperm

theorem WellPhased.ownSlices_robot (h : WellPhased robots phaseSteps given) {e : Robot α × Nat}
    (he : e ∈ ownSlices (robots.zip phaseSteps)) : e.1 = robotAt robots phaseSteps e.2 := by
  have hrobot := Builder.ownSlices_robot (by rw [h.map_snd]; exact h.steps_ne_zero) he
  rwa [h.map_fst, h.map_snd] at hrobot

theorem WellPhased.transitions_robot (h : WellPhased robots phaseSteps given) {e : Robot α × Nat}
    (he : e ∈ robots.tail.zip (boundaryTimes phaseSteps)) :
    e.1 = robotAt robots phaseSteps e.2 := by
  have hsteps := h.steps_ne_zero
  rw [← h.map_snd] at hsteps
  rw [← h.map_snd] at he
  nth_rewrite 1 [← h.map_fst] at he
  have hrobot := Builder.transitions_robot hsteps he
  rwa [h.map_fst, h.map_snd] at hrobot

/-- The times of the slices of phases are not those between phases, and none is after the end. -/
theorem WellPhased.ownTime (h : WellPhased robots phaseSteps given) {e : Robot α × Nat}
    (he : e ∈ ownSlices (robots.zip phaseSteps)) :
    e.2 ∉ boundaryTimes phaseSteps ∧ e.2 ≤ phaseSteps.sum := by
  have hmem := List.mem_map_of_mem (f := Prod.snd) he
  have hnodup := h.times_perm.nodup_iff.2 List.nodup_range
  refine ⟨fun hboundary => (List.nodup_append.1 hnodup).2.2 _ hmem _ hboundary rfl, ?_⟩
  exact Nat.le_of_lt_succ (List.mem_range.1 (h.times_perm.mem_iff.1 (List.mem_append_left _ hmem)))

theorem WellPhased.boundaryTimes_nodup (h : WellPhased robots phaseSteps given) :
    (boundaryTimes phaseSteps).Nodup :=
  (List.nodup_append.1 (h.times_perm.nodup_iff.2 List.nodup_range)).2.1

theorem WellPhased.boundaryTime_le (h : WellPhased robots phaseSteps given) {t : Nat}
    (ht : t ∈ boundaryTimes phaseSteps) : t ≤ phaseSteps.sum :=
  Nat.le_of_lt_succ (List.mem_range.1 (h.times_perm.mem_iff.1 (List.mem_append_right _ ht)))

/-- Every phase has a step, so there are no more phases than steps. -/
theorem WellPhased.phaseAt_lt_sum (h : WellPhased robots phaseSteps given) (t : Nat) :
    phaseAt phaseSteps t < phaseSteps.sum := by
  refine Nat.lt_of_lt_of_le (phaseAt_lt h.nonempty t) ?_
  exact List.length_le_sum_of_one_le _ fun steps hsteps =>
    Nat.pos_of_ne_zero fun hzero => h.steps_ne_zero (hzero ▸ hsteps)

/-- Where no graph is given, there is none. -/
theorem transitionAt?_eq_none {t : Nat} (ht : t ∉ boundaryTimes phaseSteps) :
    transitionAt? phaseSteps given t = none := by
  cases given with
  | none => rfl
  | some graphs =>
    refine List.lookup_eq_none_iff.2 fun e he => bne_iff_ne.2 fun heq => ht ?_
    rw [heq]
    exact (List.of_mem_zip he).1

/-- What is found under distinct keys, in the order of the keys. -/
theorem map_lookup_zip {β : Type} : ∀ {ks : List Nat} {xs : List β}, ks.Nodup →
    ks.length = xs.length → (ks.map fun k => (ks.zip xs).lookup k) = xs.map some
  | [], [], _, _ => rfl
  | k :: ks, x :: xs, hnodup, hlength => by
    obtain ⟨hk, hnodup⟩ := List.nodup_cons.1 hnodup
    have ih := map_lookup_zip hnodup (Nat.succ.inj hlength)
    rw [List.map_cons, List.map_cons, List.zip_cons_cons, List.lookup_cons_self, ← ih]
    refine congrArg _ (List.map_congr_left fun q hq => ?_)
    have hne : q ≠ k := fun heq => hk (heq ▸ hq)
    rw [List.lookup_cons, beq_false_of_ne hne]

variable [Scalar α] [Runtime α] {b : Builder α} {scheme : CollocationScheme} {gravity : Vec3 α}
  {planar : Option (Vec3 α)}

section Keys

variable (hrobots : ∀ r ∈ robots, r.Valid) (h : WellPhased robots phaseSteps given)

include hrobots h

theorem slice_robotAt_needsKeys {t : Nat} (ht : t ≤ phaseSteps.sum) :
    NeedsKeys (phaseSteps.sum ≤ maxIndex)
      (b.slice (robotAt robots phaseSteps t) t gravity planar) :=
  (slice_needsKeys (hrobots _ (h.robotAt_mem t)) gravity planar).mono (Nat.le_trans ht)

omit [Scalar α] [Runtime α] in
theorem stepAt_needsKeys {t : Nat} (ht : t < phaseSteps.sum) :
    NeedsKeys (phaseSteps.sum ≤ maxIndex) (b.stepAt robots phaseSteps scheme t) :=
  (phaseCollocation_needsKeys (hrobots _ (h.robotAt_mem t)) _ scheme).mono fun hle =>
    ⟨Nat.le_trans ht hle, Nat.le_trans (Nat.le_of_lt (h.phaseAt_lt_sum t)) hle⟩

/-- Assembly of well-formed phases can fail only for want of keys. -/
theorem multiPhase_needsKeys :
    NeedsKeys (phaseSteps.sum ≤ maxIndex)
      (b.multiPhase robots phaseSteps given scheme gravity planar) := by
  have hslice : ∀ {r : Robot α} {t : Nat}, r = robotAt robots phaseSteps t → t ≤ phaseSteps.sum →
      NeedsKeys (phaseSteps.sum ≤ maxIndex) (b.slice r t gravity planar) := by
    rintro r t rfl ht
    exact slice_robotAt_needsKeys hrobots h ht
  have hbetween : NeedsKeys (phaseSteps.sum ≤ maxIndex)
      (b.chosenTransitions robots phaseSteps given gravity planar) := by
    unfold chosenTransitions
    cases hgiven : given with
    | none =>
      unfold transitions
      rw [h.checkPhases_eq_ok]
      exact .inParallel fun e he =>
        hslice (h.transitions_robot he) (h.boundaryTime_le (List.of_mem_zip he).2)
    | some graphs =>
      dsimp only
      rw [if_pos (h.given_length graphs hgiven)]
      exact .ok _
  unfold multiPhase
  rw [h.checkPhases_eq_ok]
  refine .step (.ok ()) fun _ => .step hbetween fun _ => .step (.inParallel fun e he => ?_) fun _ =>
    .step (.mapM fun e he => ?_) fun _ => .ok _
  · exact hslice (h.ownSlices_robot he) (h.ownTime he).2
  · rw [phaseStarts_eq, h.map_fst, h.map_snd] at he
    obtain ⟨t, ht, rfl⟩ := List.mem_map.1 he
    rw [Nat.zero_add, Nat.zero_add]
    exact stepAt_needsKeys hrobots h (List.mem_range.1 ht)

/-- The tiling can fail only for want of keys. -/
theorem tiling_needsKeys :
    NeedsKeys (phaseSteps.sum ≤ maxIndex)
      (b.tiling robots phaseSteps given scheme gravity planar) := by
  refine .step (.mapM fun t ht => ?_) fun _ => .step (.mapM fun t ht => ?_) fun _ => .ok _
  · unfold sliceAt
    split
    · exact .ok _
    · exact slice_robotAt_needsKeys hrobots h (Nat.le_of_lt_succ (List.mem_range.1 ht))
  · exact stepAt_needsKeys hrobots h (List.mem_range.1 ht)

end Keys

/-- The graphs between phases, given or not, are what the tiling has at these times. -/
theorem chosenTransitions_eq (h : WellPhased robots phaseSteps given)
    {between : List (FactorGraph α)}
    (hbetween : b.chosenTransitions robots phaseSteps given gravity planar = .ok between) :
    between = (boundaryTimes phaseSteps).map fun t =>
      answerOr .empty (b.sliceAt robots phaseSteps given gravity planar t) := by
  cases given with
  | none =>
    obtain ⟨-, hbetween⟩ := seq_eq_ok.1 hbetween
    have hlength : (boundaryTimes phaseSteps).length = robots.tail.length := by
      rw [length_boundaryTimes, List.length_tail, h.robots_length]
    rw [eq_map_answerOr .empty (mapM_eq_ok.1 (inParallel_eq_ok.1 hbetween))]
    conv_rhs => rw [← List.map_snd_zip (Nat.le_of_eq hlength), List.map_map]
    refine List.map_congr_left fun e he => ?_
    rw [h.transitions_robot he]
    rfl
  | some graphs =>
    have hcount := h.given_length graphs rfl
    unfold chosenTransitions at hbetween
    dsimp only at hbetween
    rw [if_pos hcount] at hbetween
    obtain rfl := pure_eq_ok.1 hbetween
    have hlength : (boundaryTimes phaseSteps).length = graphs.length := by
      rw [length_boundaryTimes, hcount]
    have hlookup := map_lookup_zip h.boundaryTimes_nodup hlength
    calc graphs
        = (graphs.map some).map (·.getD .empty) := by
          rw [List.map_map]
          exact (List.map_id graphs).symm
      _ = (boundaryTimes phaseSteps).map fun t =>
            (((boundaryTimes phaseSteps).zip graphs).lookup t).getD .empty := by
          rw [← hlookup, List.map_map]
          rfl
      _ = _ := List.map_congr_left fun t ht => ?_
    obtain ⟨graph, -, hfound⟩ := List.mem_map.1 (hlookup ▸ List.mem_map_of_mem ht)
    show _ = answerOr .empty (match ((boundaryTimes phaseSteps).zip graphs).lookup t with
      | some graph => pure graph
      | none => b.slice (robotAt robots phaseSteps t) t gravity planar)
    rw [← hfound]
    rfl

/-- The graphs that make up the trajectory are those of the tiling, up to their order. -/
theorem multiPhase_factors (h : WellPhased robots phaseSteps given) {g g' : FactorGraph α}
    (hg : b.multiPhase robots phaseSteps given scheme gravity planar = .ok g)
    (hg' : b.tiling robots phaseSteps given scheme gravity planar = .ok g') :
    g.factors.Perm g'.factors := by
  obtain ⟨-, hg⟩ := seq_eq_ok.1 hg
  obtain ⟨between, hbetween, hg⟩ := bind_eq_ok.1 hg
  obtain ⟨own, hown, hg⟩ := bind_eq_ok.1 hg
  obtain ⟨steps, hsteps, hg⟩ := bind_eq_ok.1 hg
  obtain rfl := pure_eq_ok.1 hg
  obtain ⟨slices, hslices, hg'⟩ := bind_eq_ok.1 hg'
  obtain ⟨steps', hsteps', hg'⟩ := bind_eq_ok.1 hg'
  obtain rfl := pure_eq_ok.1 hg'
  let place : Nat → FactorGraph α := fun t =>
    answerOr .empty (b.sliceAt robots phaseSteps given gravity planar t)
  have hstep : steps = steps' := by
    rw [phaseStarts_eq, h.map_fst, h.map_snd, List.mapM_map] at hsteps
    refine answer_unique hsteps ?_
    rw [← hsteps']
    refine mapM_congr fun t _ => ?_
    show b.phaseCollocation _ (0 + t) (0 + _) scheme = _
    rw [Nat.zero_add, Nat.zero_add]
    rfl
  have hplaced : own ++ between =
      ((ownSlices (robots.zip phaseSteps)).map Prod.snd ++ boundaryTimes phaseSteps).map place := by
    rw [List.map_append, List.map_map, chosenTransitions_eq h hbetween,
      eq_map_answerOr .empty (mapM_eq_ok.1 (inParallel_eq_ok.1 hown))]
    refine congrArg (· ++ _) (List.map_congr_left fun e he => congrArg _ ?_)
    show _ = b.sliceAt robots phaseSteps given gravity planar e.2
    rw [sliceAt, transitionAt?_eq_none (h.ownTime he).1, h.ownSlices_robot he]
  have hperm : (own ++ between).Perm slices := by
    rw [hplaced, eq_map_answerOr .empty (mapM_eq_ok.1 hslices)]
    exact h.times_perm.map place
  rw [hstep]
  exact (hperm.append_right steps').flatMap_right _

end Assembly

/-- **Assembly over phases.** For valid robots it is refused as a trajectory exactly if the phases
are not well-formed. Well-formed phases whose end fits the keys are assembled, and the factors are
those of the tiling: one slice for every time and one step for every time but the end. -/
theorem multiPhase_tiles {α : Type} [Scalar α] [Runtime α] (b : Builder α) {robots : List (Robot α)}
    (hrobots : ∀ r ∈ robots, r.check = .ok ()) (phaseSteps : List Nat)
    (given : Option (List (FactorGraph α))) (scheme : CollocationScheme) (gravity : Vec3 α)
    (planar : Option (Vec3 α)) :
    ((∃ cause, b.multiPhase robots phaseSteps given scheme gravity planar =
        .error (.trajectory cause)) ↔ ¬ WellPhased robots phaseSteps given) ∧
      (WellPhased robots phaseSteps given → phaseSteps.sum ≤ maxIndex →
        ∃ g g', b.multiPhase robots phaseSteps given scheme gravity planar = .ok g ∧
          b.tiling robots phaseSteps given scheme gravity planar = .ok g' ∧
          g.factors.Perm g'.factors) := by
  have hvalid : ∀ r ∈ robots, r.Valid := fun r hr => Robot.check_eq_ok_iff.1 (hrobots r hr)
  refine ⟨⟨fun hrefused h => ?_, multiPhase_refused⟩, fun h hle => ?_⟩
  · obtain ⟨cause, he⟩ := hrefused
    obtain ⟨v, hv⟩ := (multiPhase_needsKeys hvalid h).fault _ he
    cases hv
  · obtain ⟨g, hg⟩ := (multiPhase_needsKeys hvalid h).succeeds hle
    obtain ⟨g', hg'⟩ := (tiling_needsKeys hvalid h).succeeds hle
    exact ⟨g, g', hg, hg', multiPhase_factors h hg hg'⟩

/-- A linkage that takes over from an arm for three steps, with nothing asked in between. -/
theorem multiPhase_tiles_takeover :
    let robots : List (Robot Float) := [.twoLinkArm, .fourBarLinkage, .twoLinkArm]
    let b : Builder Float := ofSettings .default
    (∀ r ∈ robots, r.check = .ok ()) ∧ WellPhased robots [1, 3, 2] (some [.empty, .empty]) ∧
      [1, 3, 2].sum ≤ maxIndex ∧
      ∃ g g', b.multiPhase robots [1, 3, 2] (some [.empty, .empty]) .trapezoidal 0 none = .ok g ∧
        b.tiling robots [1, 3, 2] (some [.empty, .empty]) .trapezoidal 0 none = .ok g' ∧
        g.factors.Perm g'.factors := by
  intro robots b
  have hrobots : ∀ r ∈ robots, r.check = .ok () := by
    simp only [robots, List.forall_mem_cons]
    exact ⟨rfl, rfl, rfl, nofun⟩
  have hphases : WellPhased robots [1, 3, 2] (some [.empty, .empty]) :=
    ⟨List.cons_ne_nil _ _, rfl, by decide, fun _ h => Option.some.inj h ▸ rfl⟩
  have hfits : [1, 3, 2].sum ≤ maxIndex := by decide
  exact ⟨hrobots, hphases, hfits, (multiPhase_tiles b hrobots _ _ _ _ _).2 hphases hfits⟩

end Builder

end Articulated
