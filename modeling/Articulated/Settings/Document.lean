import Articulated.Fault
import Articulated.Solver.Params
import Articulated.Yaml.Document

/-!
# Settings

The standard deviations of the assembled factors and the parameters of the optimizer. A standard
deviation must be a positive finite number; `Settings.check` names the first one that is not.

Settings are read from a document: the first document of a stream may hold the mappings `sigmas`
and `optimizer`. What is missing or null keeps its default, and unknown entries are passed over.

* `Settings.ofDocument` reads a document, `Settings.ofText` a text, and `Settings.ofFile` the
  bytes of a file, or the lack of one.
* Standard deviations and tolerances must be numbers. The kind of optimizer is read if it is a
  text, and the iteration budget if it is an integer.
* The standard deviations are checked last.
-/

namespace Articulated

/-! ## 1. Settings -/

variable {α : Type} [Scalar α]

/-- Noise and optimizer settings. -/
structure Settings (α : Type) where
  sigma : SigmaName → α
  optimizer : OptimizerParams α

namespace Settings

/-- One standard deviation for everything, and the default optimizer. -/
def default : Settings α := ⟨fun _ => 0.001, OptimizerParams.default⟩

/-- Changes one standard deviation. -/
def setSigma (s : Settings α) (name : SigmaName) (value : α) : Settings α :=
  { s with sigma := fun n => if n = name then value else s.sigma n }

/-- Whether a number can be a standard deviation. -/
def isSigma (x : α) : Bool := Scalar.isFinite x && decide (0 < x)

/-- Checks the given standard deviations in order. -/
def checkSigmas (s : Settings α) : List SigmaName → Except (Fault α) Unit
  | [] => pure ()
  | n :: ns =>
    if isSigma (s.sigma n) then s.checkSigmas ns
    else throw (.settings (.badSigma n (s.sigma n)))

/-- Checks all standard deviations in order. -/
def check (s : Settings α) : Except (Fault α) Unit := s.checkSigmas SigmaName.all

/-! ## 2. Entries -/

/-- The number of an entry, nothing where it is missing or null. -/
def number? (node : Option Yaml.Node) (entry : String) : Except (Fault Float) (Option Float) :=
  match node with
  | none | some .missing | some .null => pure none
  | some (.integer i) => pure (some (Float.ofInt i))
  | some (.real spelling) =>
    match Yaml.Node.real? spelling with
    | some x => pure (some x)
    | none => throw (.settings (.notANumber entry))
  | some _ => throw (.settings (.notANumber entry))

/-- An entry of a section, nothing where the section is missing. -/
def member? (part : Option Yaml.Node) (entry : String) : Option Yaml.Node :=
  part.bind (·.get? entry)

/-- Reads the given standard deviations in order. -/
def readSigmas (sigmas : Option Yaml.Node) :
    List SigmaName → Settings Float → Except (Fault Float) (Settings Float)
  | [], s => pure s
  | n :: ns, s => do
    match ← number? (member? sigmas n.text) n.text with
    | some x => readSigmas sigmas ns (s.setSigma n x)
    | none => readSigmas sigmas ns s

/-- Reads the kind of optimizer. -/
def readMethod (node : Option Yaml.Node) (method : Method) : Except (Fault Float) Method :=
  match node with
  | some (.text content) =>
    let name := String.ofList content
    if name = Method.gaussNewton.text then pure .gaussNewton
    else if name = Method.levenbergMarquardt.text then pure .levenbergMarquardt
    else throw (.settings (.unknownOptimizer name))
  | _ => pure method

/-- Reads the iteration budget. -/
def readBudget (node : Option Yaml.Node) (budget : Nat) : Except (Fault Float) Nat :=
  match node with
  | some (.integer i) => if i < 0 then throw (.settings .negativeIterations) else pure i.toNat
  | _ => pure budget

/-- Reads the parameters of the optimizer in order. -/
def readOptimizer (node : Option Yaml.Node) (p : OptimizerParams Float) :
    Except (Fault Float) (OptimizerParams Float) := do
  let real (entry : String) (before : Float) : Except (Fault Float) Float := do
    return (← number? (member? node entry) entry).getD before
  let method ← readMethod (member? node "type") p.method
  let maxIterations ← readBudget (member? node "max_iterations") p.maxIterations
  let relativeTolerance ← real "relative_tolerance" p.relativeTolerance
  let absoluteTolerance ← real "absolute_tolerance" p.absoluteTolerance
  let initialLambda ← real "initial_lambda" p.initialLambda
  let lambdaFactor ← real "lambda_factor" p.lambdaFactor
  let maxLambda ← real "max_lambda" p.maxLambda
  let rankTolerance ← real "rank_tolerance" p.rankTolerance
  return { method, maxIterations, relativeTolerance, absoluteTolerance, initialLambda,
           lambdaFactor, maxLambda, rankTolerance }

/-! ## 3. Documents -/

/-- The settings of a document. -/
def ofDocument (doc : Yaml.Node) : Except (Fault Float) (Settings Float) := do
  let s ← readSigmas (doc.get? "sigmas") SigmaName.all default
  let optimizer ← readOptimizer (doc.get? "optimizer") s.optimizer
  let s : Settings Float := { s with optimizer }
  s.check
  return s

/-- The settings of a stream of documents. -/
def ofDocuments : List Yaml.Node → Except (Fault Float) (Settings Float)
  | [] => pure default
  | doc :: _ => ofDocument doc

/-- The settings of a text. -/
def ofText (text : String) : Except (Fault Float) (Settings Float) :=
  match Yaml.documents? text.toList with
  | some docs => ofDocuments docs
  | none => throw (.settings .notADocument)

/-- The settings of a file, given by its bytes. There are none if the file does not exist or holds
no UTF-8 text. -/
def ofFile (bytes : Option ByteArray) : Except (Fault Float) (Settings Float) :=
  match bytes.bind String.fromUTF8? with
  | some text => ofText text
  | none => throw .io

end Settings

end Articulated
