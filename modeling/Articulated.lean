import Articulated.Assembly.Initial
import Articulated.Assembly.Priors
import Articulated.Assembly.Trajectory
import Articulated.Constraint.Retraction
import Articulated.Decimal.Limited
import Articulated.Dense.Jacobi
import Articulated.Fault.Message
import Articulated.Key.Notation
import Articulated.Proofs.Assembly.Momentum
import Articulated.Proofs.Assembly.Tiling
import Articulated.Proofs.Constraint.Independence
import Articulated.Proofs.Constraint.Merging
import Articulated.Proofs.Number.Machine
import Articulated.Report
import Articulated.Robot.Model
import Articulated.Settings.Document
import Articulated.Proofs.Key.Codec
import Articulated.Proofs.Robot.History
import Articulated.Proofs.Factor.Kinds
import Articulated.Proofs.Factor.Sweep
import Articulated.Proofs.Factor.Differences
import Articulated.Proofs.Assembly.Quantities
import Articulated.Proofs.Assembly.JointVectors
import Articulated.Proofs.Assembly.Coverage
import Articulated.Proofs.Reordering
import Articulated.Proofs.Graph.Reordering
import Articulated.Proofs.Assembly.Reordering
import Articulated.Proofs.Solver.Report
import Articulated.Proofs.Settings.Entries
import Articulated.Proofs.Solver.Damping
import Articulated.Proofs.Solver.DampedRun
import Articulated.Proofs.Assembly.Posedness
import Articulated.Proofs.Assembly.Unweighted
import Articulated.Proofs.Assembly.Durations
import Articulated.Proofs.Assembly.Integration
import Articulated.Proofs.Graph.Stacking
import Articulated.Proofs.Assembly.Wrenches
import Articulated.Proofs.Constraint.Islands
import Articulated.Proofs.Robot.Names
import Articulated.Proofs.Constraint.Absence
import Articulated.Proofs.Assembly.Safety
import Articulated.Proofs.Assembly.Shifting
import Articulated.Proofs.Constraint.Projection
import Articulated.Proofs.Solver.Rank
import Articulated.Proofs.Constraint.Repetition
import Articulated.Proofs.Constraint.Penalty
import Articulated.Proofs.Assembly.Rest
import Articulated.Proofs.Spatial.Plane
import Articulated.Proofs.Values.Displacement
import Articulated.Proofs.Key.Texts
import Articulated.Proofs.Spatial.Algebra
import Articulated.Proofs.Constraint.Calls
