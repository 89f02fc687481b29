import Articulated.Key
import Articulated.Settings.SigmaName

/-!
# What can go wrong

Every computation of the library that can fail answers in `Except (Fault α)`. A fault is a cause,
not a text:

* most constructors are answers about the input: a variable without a value, an ill-formed robot,
  a system that does not determine its solution;
* `Fault.breach` says that a caller broke a contract, such as an id that fits no key;
* `Fault.unfinished` says that a search was stopped by the bound it was given, so that nothing is
  known about its outcome.

Jobs that do not depend on each other are run in parallel. Their answers come in the order of the
jobs; if several jobs fail, then one of their faults is reported, and it is up to the `Runtime`
which one.
-/

namespace Articulated

/-! ## 1. Causes -/

/-- The kinds of values. -/
inductive ValueKind where
  | scalar
  | vector6
  | pose
deriving DecidableEq

/-- Why a trajectory is ill-formed. -/
inductive TrajectoryFault where
  /-- There are no phases. -/
  | noPhases
  /-- The number of robots is not the number of phases. -/
  | robotCount (robots phases : Nat)
  /-- A phase has no steps. -/
  | emptyPhase (phase : Nat)
  /-- The number of transition graphs does not fit the number of phases. -/
  | transitionCount (graphs phases : Nat)
  /-- The number of torque vectors is not the number of slices. -/
  | torqueCount (vectors slices : Nat)
deriving DecidableEq

/-- Quantities of which one number is given for every joint. -/
inductive JointQuantity where
  | angles
  | velocities
  | accelerations
  | torques
deriving DecidableEq

/-- Why a robot, or what is given for its joints, is ill-formed. -/
inductive RobotFault where
  /-- A link id fits no key. -/
  | linkIdTooLarge (id : Nat)
  /-- Two links have one id. -/
  | duplicateLink (id : Nat)
  /-- A joint id fits no key. -/
  | jointIdTooLarge (id : Nat)
  /-- Two joints have one id. -/
  | duplicateJoint (id : Nat)
  /-- A joint has one link on both sides. -/
  | selfJoint (joint : String) (link : Nat)
  /-- A new joint would have one link on both sides. -/
  | newSelfJoint (joint : String)
  /-- The numbers given are not one for every joint. -/
  | jointCount (given : Nat) (quantity : JointQuantity) (joints : Nat)
deriving DecidableEq

/-- How a link was referred to. -/
inductive LinkReference where
  /-- By its name. -/
  | byName (text : String)
  /-- By its id, as an end of a joint. -/
  | endOf (id : Nat) (joint : String)
  /-- By its id. -/
  | byId (id : Nat)
deriving DecidableEq

/-- Why settings are refused. -/
inductive SettingsFault (α : Type) where
  /-- The text is no document. -/
  | notADocument
  /-- An entry that should be a number is something else. -/
  | notANumber (entry : String)
  /-- The kind of optimizer is not known. -/
  | unknownOptimizer (text : String)
  /-- The iteration budget is negative. -/
  | negativeIterations
  /-- A standard deviation is not a positive finite number. -/
  | badSigma (name : SigmaName) (value : α)
  /-- The collocation scheme is not known. -/
  | unknownScheme (text : String)

/-- How a caller broke a contract. -/
inductive Breach where
  /-- The ids or the index of a variable do not fit the key layout. -/
  | keyLayout (v : Variable)
  /-- A tangent vector has fewer coordinates than the variables it moves. -/
  | shortTangent
  /-- A residual, or a column of its Jacobian, has not one row per standard deviation. -/
  | residualRows (rows sigmas : Nat)
  /-- A Jacobian block does not fit its place in the stacked matrix. -/
  | blockShape
  /-- A threshold for singular values is negative or not a number. -/
  | badThreshold
  /-- A system of equations has no rows or no columns. -/
  | emptySystem
  /-- Numbers are drawn from an interval whose length is no number. -/
  | drawRange
deriving DecidableEq

/-- A failure. -/
inductive Fault (α : Type) where
  /-- A variable has no value. -/
  | missing (key : Key)
  /-- The value of a variable is of another kind than the one read. -/
  | kindMismatch (key : Key) (expected found : ValueKind)
  /-- The linear system does not determine its solution. -/
  | infeasible (rank dimension : Nat)
  /-- A retraction ended outside the constraints. -/
  | notRetracted (iterations : Nat) (violation : α)
  | trajectory (cause : TrajectoryFault)
  | unknownLink (link : LinkReference)
  | unknownJoint (name : String)
  | robot (cause : RobotFault)
  | settings (cause : SettingsFault α)
  /-- A file cannot be read. -/
  | io
  | breach (cause : Breach)
  /-- A search was stopped by its bound. -/
  | unfinished

/-- The key of a variable, where one that does not fit is a breach. -/
def Variable.key {α : Type} (v : Variable) : Except (Fault α) Key :=
  match v.key? with
  | some k => .ok k
  | none => .error (.breach (.keyLayout v))

/-! ## 2. Jobs in parallel -/

/-- What jobs are run by. Of the faults of several jobs it reports one, which may depend on when
each of them was run. A run ends with the first fault that is reported to it, so runtimes that
prefer one fault or another stand for all that can happen in a run. -/
class Runtime (α : Type) where
  /-- The fault that is reported, of one fault and others in the order of the jobs. -/
  reported : Fault α → List (Fault α) → Fault α
  reported_mem : ∀ e es, reported e es ∈ e :: es

/-- The first fault is reported, as if the jobs were run one after the other. -/
instance Runtime.inTurn (α : Type) : Runtime α where
  reported e _ := e
  reported_mem _ _ := List.mem_cons_self

section Jobs

variable {α β γ : Type}

/-- The answers of the jobs that succeeded. -/
def answersOf : List (Except (Fault α) γ) → List γ
  | [] => []
  | .ok c :: results => c :: answersOf results
  | .error _ :: results => answersOf results

/-- The faults of the jobs that failed. -/
def faultsOf : List (Except (Fault α) γ) → List (Fault α)
  | [] => []
  | .ok _ :: results => faultsOf results
  | .error e :: results => e :: faultsOf results

variable [Runtime α]

/-- The answers of all jobs, or the fault that is reported if some of them failed. -/
def gather (results : List (Except (Fault α) γ)) : Except (Fault α) (List γ) :=
  match faultsOf results with
  | [] => .ok (answersOf results)
  | e :: es => .error (Runtime.reported e es)

/-- Runs a job for every element of a list. -/
def inParallel (l : List β) (job : β → Except (Fault α) γ) : Except (Fault α) (List γ) :=
  gather (l.map job)

end Jobs

end Articulated
