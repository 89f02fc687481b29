import Articulated.Assembly.Slice

/-!
# Trajectories

A trajectory is a slice for every time, joined by collocation factors between consecutive times.

A trajectory of several phases has a robot for every phase, and steps that last as long as the
duration variable of their phase. A slice strictly inside a phase belongs to the robot of the
phase, the first and the last slice to the robots of the first and the last phase. At the boundary
between two phases stands a transition graph, by default the slice of the robot of the phase that
is entered.
-/

namespace Articulated.Builder

variable {α : Type} [Scalar α] [Runtime α]

/-! ## 1. Steps -/

/-- The integration of the coordinate and of the rate of every joint over a step. -/
def collocationWith (b : Builder α) (r : Robot α) (t : Nat) (step : TimeStep α)
    (scheme : CollocationScheme) : Except (Fault α) (FactorGraph α) := do
  let factors ← r.sortedJoints.mapM fun j => do
    let q₀ ← (Variable.jointAngle j.id t).key
    let q₁ ← (Variable.jointAngle j.id (t + 1)).key
    let v₀ ← (Variable.jointVel j.id t).key
    let v₁ ← (Variable.jointVel j.id (t + 1)).key
    let a₀ ← (Variable.jointAccel j.id t).key
    let a₁ ← (Variable.jointAccel j.id (t + 1)).key
    return [Factor.isotropic (.collocation q₀ q₁ v₀ v₁ step scheme) 1 (b.sigma .angleCollocation),
      Factor.isotropic (.collocation v₀ v₁ a₀ a₁ step scheme) 1 (b.sigma .velocityCollocation)]
  return ⟨factors.flatten⟩

/-- The integration over a step of known length. -/
def collocation (b : Builder α) (r : Robot α) (t : Nat) (dt : α) (scheme : CollocationScheme) :
    Except (Fault α) (FactorGraph α) :=
  b.collocationWith r t (.fixed dt) scheme

/-- The integration over a step of a phase. -/
def phaseCollocation (b : Builder α) (r : Robot α) (t phase : Nat) (scheme : CollocationScheme) :
    Except (Fault α) (FactorGraph α) := do
  b.collocationWith r t (.phase (← (Variable.phaseDuration phase).key)) scheme

/-! ## 2. One phase -/

/-- The slices at the times from zero to `numSteps`, joined by steps of equal length. -/
def trajectory (b : Builder α) (r : Robot α) (numSteps : Nat) (dt : α) (scheme : CollocationScheme)
    (gravity : Vec3 α) (planar : Option (Vec3 α)) : Except (Fault α) (FactorGraph α) := do
  let slices ← inParallel (List.range (numSteps + 1)) fun t => b.slice r t gravity planar
  let steps ← (List.range numSteps).mapM fun t => b.collocation r t dt scheme
  return .join (slices ++ steps)

/-! ## 3. Several phases -/

/-- The times at which phases end, from a start. -/
def phaseEnds (start : Nat) : List Nat → List Nat
  | [] => []
  | steps :: rest => (start + steps) :: phaseEnds (start + steps) rest

/-- The times between phases: the first time of every phase but the first. -/
def boundaryTimes (phaseSteps : List Nat) : List Nat := (phaseEnds 0 phaseSteps).dropLast

/-- Phases need a robot each and at least one step each. -/
def checkPhases (robots : List (Robot α)) (phaseSteps : List Nat) : Except (Fault α) Unit := do
  if phaseSteps.isEmpty then throw (.trajectory .noPhases)
  if robots.length ≠ phaseSteps.length then
    throw (.trajectory (.robotCount robots.length phaseSteps.length))
  match phaseSteps.findIdx? (· == 0) with
  | some phase => throw (.trajectory (.emptyPhase phase))
  | none => pure ()

/-- The slices of the entered robots at the times between phases. -/
def transitions (b : Builder α) (robots : List (Robot α)) (phaseSteps : List Nat) (gravity : Vec3 α)
    (planar : Option (Vec3 α)) : Except (Fault α) (List (FactorGraph α)) := do
  checkPhases robots phaseSteps
  inParallel (robots.tail.zip (boundaryTimes phaseSteps)) fun e => b.slice e.1 e.2 gravity planar

/-- The slices strictly inside phases: each time with the robot of its phase. -/
def innerSlices (start : Nat) : List (Robot α × Nat) → List (Robot α × Nat)
  | [] => []
  | (r, steps) :: rest =>
    (List.range (steps - 1)).map (fun i => (r, start + 1 + i)) ++ innerSlices (start + steps) rest

/-- The steps of all phases: each start time with the robot and the number of its phase. -/
def phaseStarts (start phase : Nat) : List (Robot α × Nat) → List (Robot α × Nat × Nat)
  | [] => []
  | (r, steps) :: rest =>
    (List.range steps).map (fun i => (r, start + i, phase))
      ++ phaseStarts (start + steps) (phase + 1) rest

/-- The slices of a trajectory apart from those between phases: the first one, those inside
phases, and the last one. -/
def ownSlices (phases : List (Robot α × Nat)) : List (Robot α × Nat) :=
  let total := (phases.map Prod.snd).foldr (· + ·) 0
  (phases.head?.map fun p => (p.1, 0)).toList ++ innerSlices 0 phases
    ++ (phases.getLast?.map fun p => (p.1, total)).toList

/-- The transition graphs that were given, as many as there are boundaries, or the slices of the
entered robots. -/
def chosenTransitions (b : Builder α) (robots : List (Robot α)) (phaseSteps : List Nat)
    (given : Option (List (FactorGraph α))) (gravity : Vec3 α) (planar : Option (Vec3 α)) :
    Except (Fault α) (List (FactorGraph α)) :=
  match given with
  | some graphs =>
    if graphs.length = phaseSteps.length - 1 then pure graphs
    else throw (.trajectory (.transitionCount graphs.length phaseSteps.length))
  | none => b.transitions robots phaseSteps gravity planar

/-- The trajectory over phases of variable duration. -/
def multiPhase (b : Builder α) (robots : List (Robot α)) (phaseSteps : List Nat)
    (given : Option (List (FactorGraph α))) (scheme : CollocationScheme) (gravity : Vec3 α)
    (planar : Option (Vec3 α)) : Except (Fault α) (FactorGraph α) := do
  checkPhases robots phaseSteps
  let between ← b.chosenTransitions robots phaseSteps given gravity planar
  let phases := robots.zip phaseSteps
  let slices ← inParallel (ownSlices phases) fun e => b.slice e.1 e.2 gravity planar
  let steps ← (phaseStarts 0 0 phases).mapM fun e => b.phaseCollocation e.1 e.2.1 e.2.2 scheme
  return .join (slices ++ between ++ steps)

end Articulated.Builder
