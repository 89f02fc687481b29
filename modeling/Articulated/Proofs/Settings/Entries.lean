import Articulated.Proofs.Fault.Outcome
import Articulated.Proofs.Number.Machine
import Articulated.Settings.Document

/-!
# What becomes of the entries of a document

Twenty-six entries of a document are recognised: a standard deviation for each name, and eight
parameters of the optimizer. Each reader is described by what it takes from its entry, and the
settings of a stream of documents by what they take from every entry of the first one.

* `number?_eq_ok`, `readMethod_eq_ok`, `readBudget_eq_ok`: the three readers of an entry.
* `readSigmas_eq_ok`, `readOptimizer_eq_ok`: the two sections.
* `ofDocuments_eq_ok`, `ofDocuments_congr`: what the settings of a stream are, and all that they
  depend on.
* `Settings.TakenFrom`: nothing that is recognised is passed over.
* `ofDocuments_taken`: the settings of a stream are taken from it, if there are any. The kind of
  optimizer must be a text for this and the budget an integer, for anything else in their places
  is passed over (`ofDocuments_fractional_budget`).
-/

namespace Articulated

open Yaml (Node)

/-! ## 1. Entries -/

/-- The entry is not there, or null. -/
inductive Yaml.Node.Absent : Option Node → Prop
  | none : Absent none
  | missing : Absent (some .missing)
  | null : Absent (some .null)

/-- The node is a number: an integer, or a real number by its spelling. -/
inductive Yaml.Node.IsNumber : Node → Float → Prop
  | integer (i : Int) : IsNumber (.integer i) (Float.ofInt i)
  | real {spelling : List Char} {x : Float} (h : real? spelling = some x) :
      IsNumber (.real spelling) x

/-- The node is the name of a kind of optimizer. -/
inductive Yaml.Node.Names : Node → Method → Prop
  | text (m : Method) : Names (.text m.text.toList) m

/-- The node is a number of iterations. -/
inductive Yaml.Node.Counts : Node → Nat → Prop
  | integer (k : Nat) : Counts (.integer k) k

/-- The setting is what the entry stands for, and has its default if the entry is absent. -/
inductive Yaml.Taken {β : Type} (Stands : Node → β → Prop) (before : β) :
    Option Node → β → Prop
  | absent {node : Option Node} (h : Node.Absent node) : Taken Stands before node before
  | given {node : Node} {value : β} (h : Stands node value) :
      Taken Stands before (some node) value

open Yaml Yaml.Node

namespace Settings

section Readers

variable {node : Option Node} {entry : String}

/-- A number is read exactly if the entry is absent or a number. -/
theorem number?_eq_ok {o : Option Float} : number? node entry = .ok o ↔
    Absent node ∧ o = none ∨ ∃ n x, node = some n ∧ IsNumber n x ∧ o = some x := by
  constructor
  · intro h
    unfold number? at h
    split at h
    · exact .inl ⟨.none, (pure_eq_ok.1 h).symm⟩
    · exact .inl ⟨.missing, (pure_eq_ok.1 h).symm⟩
    · exact .inl ⟨.null, (pure_eq_ok.1 h).symm⟩
    · exact .inr ⟨_, _, rfl, .integer _, (pure_eq_ok.1 h).symm⟩
    · split at h
      · rename_i hreal
        exact .inr ⟨_, _, rfl, .real hreal, (pure_eq_ok.1 h).symm⟩
      · cases h
    · cases h
  · rintro (⟨hnode, rfl⟩ | ⟨n, x, rfl, hnumber, rfl⟩)
    · cases hnode <;> rfl
    · cases hnumber with
      | integer i => rfl
      | real hreal => simp only [number?, hreal]; rfl

/-- A number is taken from its entry. -/
theorem number?_getD_eq_ok {before x : Float} :
    (do return (← number? node entry).getD before) = (.ok x : Except (Fault Float) Float) ↔
      Taken IsNumber before node x := by
  rw [map_eq_ok]
  constructor
  · rintro ⟨o, ho, rfl⟩
    rcases number?_eq_ok.1 ho with ⟨hnode, rfl⟩ | ⟨n, x, rfl, hnumber, rfl⟩
    · exact .absent hnode
    · exact .given hnumber
  · intro h
    cases h with
    | absent hnode => exact ⟨none, number?_eq_ok.2 (.inl ⟨hnode, rfl⟩), rfl⟩
    | given hnumber => exact ⟨_, number?_eq_ok.2 (.inr ⟨_, _, rfl, hnumber, rfl⟩), rfl⟩

/-- The kind of optimizer is taken from its entry, if it is a text. -/
theorem readMethod_eq_ok {before m : Method}
    (htext : Absent node ∨ ∃ content, node = some (.text content)) :
    readMethod node before = .ok m ↔ Taken Names before node m := by
  rcases htext with hnode | ⟨content, rfl⟩
  · have hread : readMethod node before = .ok before := by cases hnode <;> rfl
    rw [hread]
    constructor
    · rintro ⟨⟩
      exact .absent hnode
    · intro h
      cases h with
      | absent => rfl
      | given hnames => cases hnames; cases hnode
  · constructor
    · intro h
      unfold readMethod at h
      dsimp only at h
      split at h
      · rename_i hname
        obtain rfl := pure_eq_ok.1 h
        obtain rfl : content = Method.gaussNewton.text.toList := by
          rw [← hname, String.toList_ofList]
        exact .given (.text _)
      · split at h
        · rename_i hname
          obtain rfl := pure_eq_ok.1 h
          obtain rfl : content = Method.levenbergMarquardt.text.toList := by
            rw [← hname, String.toList_ofList]
          exact .given (.text _)
        · cases h
    · intro h
      cases h with
      | absent hnode => cases hnode
      | given hnames => cases hnames; cases m <;> rfl

/-- The budget is taken from its entry, if it is an integer. -/
theorem readBudget_eq_ok {before k : Nat}
    (hinteger : Absent node ∨ ∃ i, node = some (.integer i)) :
    readBudget node before = .ok k ↔ Taken Counts before node k := by
  rcases hinteger with hnode | ⟨i, rfl⟩
  · have hread : readBudget node before = .ok before := by cases hnode <;> rfl
    rw [hread]
    constructor
    · rintro ⟨⟩
      exact .absent hnode
    · intro h
      cases h with
      | absent => rfl
      | given hcounts => cases hcounts; cases hnode
  · constructor
    · intro h
      unfold readBudget at h
      dsimp only at h
      split at h
      · cases h
      · rename_i hpos
        obtain rfl := pure_eq_ok.1 h
        obtain ⟨k, rfl⟩ := Int.eq_ofNat_of_zero_le (Int.not_lt.1 hpos)
        exact .given (.integer k)
    · intro h
      cases h with
      | absent hnode => cases hnode
      | given hcounts => cases hcounts; rfl

end Readers

/-! ## 2. Sections -/

section Sections

variable {part : Option Node} {s s' : Settings Float}

theorem setSigma_self (s : Settings Float) (n : SigmaName) : s.setSigma n (s.sigma n) = s := by
  have hsigma : (fun m => if m = n then s.sigma n else s.sigma m) = s.sigma := by
    funext m
    split
    · rename_i hm
      rw [hm]
    · rfl
  exact congrArg (fun f => (⟨f, s.optimizer⟩ : Settings Float)) hsigma

theorem sigma_setSigma_self (n : SigmaName) (x : Float) : (s.setSigma n x).sigma n = x := if_pos rfl

theorem sigma_setSigma_of_ne {m n : SigmaName} (h : m ≠ n) (x : Float) :
    (s.setSigma n x).sigma m = s.sigma m := if_neg h

theorem readSigmas_cons_eq_ok {n : SigmaName} {ns : List SigmaName} :
    readSigmas part (n :: ns) s = .ok s' ↔
      ∃ x, Taken IsNumber (s.sigma n) (member? part n.text) x ∧
        readSigmas part ns (s.setSigma n x) = .ok s' := by
  rw [readSigmas, bind_eq_ok]
  constructor
  · rintro ⟨o, ho, h⟩
    rcases number?_eq_ok.1 ho with ⟨hnode, rfl⟩ | ⟨node, x, hnode, hnumber, rfl⟩
    · exact ⟨s.sigma n, .absent hnode, by rwa [setSigma_self]⟩
    · exact ⟨x, hnode ▸ .given hnumber, h⟩
  · rintro ⟨x, hx, h⟩
    generalize hnode : member? part n.text = node at hx ⊢
    cases hx with
    | absent habsent =>
      rw [setSigma_self] at h
      exact ⟨none, number?_eq_ok.2 (.inl ⟨habsent, rfl⟩), h⟩
    | given hnumber => exact ⟨some x, number?_eq_ok.2 (.inr ⟨_, x, rfl, hnumber, rfl⟩), h⟩

/-- The standard deviations read are taken from their entries, and nothing else changes. -/
theorem readSigmas_eq_ok : ∀ {ns : List SigmaName} {s : Settings Float}, ns.Nodup →
    (readSigmas part ns s = .ok s' ↔ s'.optimizer = s.optimizer ∧
      ∀ n, (n ∈ ns → Taken IsNumber (s.sigma n) (member? part n.text) (s'.sigma n)) ∧
        (n ∉ ns → s'.sigma n = s.sigma n))
  | [], s, _ => by
    rw [readSigmas, pure_eq_ok]
    constructor
    · rintro rfl
      exact ⟨rfl, fun n => ⟨nofun, fun _ => rfl⟩⟩
    · intro h
      obtain ⟨hoptimizer, hsigma⟩ := h
      obtain ⟨sigma', optimizer'⟩ := s'
      obtain rfl : optimizer' = s.optimizer := hoptimizer
      obtain rfl : sigma' = s.sigma := funext fun n => (hsigma n).2 List.not_mem_nil
      rfl
  | m :: ns, s, hnodup => by
    obtain ⟨hm, hns⟩ := List.nodup_cons.1 hnodup
    rw [readSigmas_cons_eq_ok]
    simp only [readSigmas_eq_ok hns]
    constructor
    · rintro ⟨x, hx, hoptimizer, h⟩
      refine ⟨hoptimizer, fun n => ?_⟩
      obtain ⟨htaken, hkept⟩ := h n
      rcases eq_or_ne n m with rfl | hne
      · rw [sigma_setSigma_self] at hkept
        exact ⟨fun _ => (hkept hm).symm ▸ hx, fun hn => absurd List.mem_cons_self hn⟩
      · rw [sigma_setSigma_of_ne hne] at htaken hkept
        exact ⟨fun hn => htaken ((List.mem_cons.1 hn).resolve_left hne),
          fun hn => hkept fun hn' => hn (List.mem_cons_of_mem m hn')⟩
    · rintro ⟨hoptimizer, h⟩
      refine ⟨s'.sigma m, (h m).1 List.mem_cons_self, hoptimizer, fun n => ?_⟩
      obtain ⟨htaken, hkept⟩ := h n
      rcases eq_or_ne n m with rfl | hne
      · rw [sigma_setSigma_self]
        exact ⟨fun hn => absurd hn hm, fun _ => rfl⟩
      · rw [sigma_setSigma_of_ne hne]
        exact ⟨fun hn => htaken (List.mem_cons_of_mem m hn),
          fun hn => hkept (mt (fun hn' => (List.mem_cons.1 hn').resolve_left hne) hn)⟩

/-- The standard deviations pass the check exactly if each is positive and finite. -/
theorem checkSigmas_eq_ok : ∀ {ns : List SigmaName}, s.checkSigmas ns = .ok () ↔
    ∀ n ∈ ns, 0 < s.sigma n ∧ (s.sigma n).isFinite = true
  | [] => ⟨fun _ => nofun, fun _ => rfl⟩
  | n :: ns => by
    rw [List.forall_mem_cons, ← checkSigmas_eq_ok, checkSigmas, isSigma, Machine.isFinite_eq]
    split
    · rename_i h
      obtain ⟨hfinite, hpos⟩ := Bool.and_eq_true_iff.1 h
      exact ⟨fun hns => ⟨⟨of_decide_eq_true hpos, hfinite⟩, hns⟩, And.right⟩
    · rename_i h
      refine ⟨nofun, fun ⟨⟨hpos, hfinite⟩, _⟩ => absurd ?_ h⟩
      rw [hfinite, decide_eq_true hpos]
      rfl

end Sections

end Settings

/-- The real parameters of an optimizer are taken from the entries of a section. -/
structure OptimizerParams.NumbersTaken (p : OptimizerParams Float) (part : Option Node)
    (before : OptimizerParams Float) : Prop where
  relativeTolerance : Taken IsNumber before.relativeTolerance
    (Settings.member? part "relative_tolerance") p.relativeTolerance
  absoluteTolerance : Taken IsNumber before.absoluteTolerance
    (Settings.member? part "absolute_tolerance") p.absoluteTolerance
  initialLambda :
    Taken IsNumber before.initialLambda (Settings.member? part "initial_lambda") p.initialLambda
  lambdaFactor :
    Taken IsNumber before.lambdaFactor (Settings.member? part "lambda_factor") p.lambdaFactor
  maxLambda : Taken IsNumber before.maxLambda (Settings.member? part "max_lambda") p.maxLambda
  rankTolerance :
    Taken IsNumber before.rankTolerance (Settings.member? part "rank_tolerance") p.rankTolerance

namespace Settings

theorem readOptimizer_eq_ok {part : Option Node} {p q : OptimizerParams Float} :
    readOptimizer part p = .ok q ↔ readMethod (member? part "type") p.method = .ok q.method ∧
      readBudget (member? part "max_iterations") p.maxIterations = .ok q.maxIterations ∧
      q.NumbersTaken part p := by
  unfold readOptimizer
  constructor
  · intro h
    obtain ⟨method, hmethod, h⟩ := bind_eq_ok.1 h
    obtain ⟨budget, hbudget, h⟩ := bind_eq_ok.1 h
    obtain ⟨relative, hrelative, h⟩ := bind_eq_ok.1 h
    obtain ⟨absolute, habsolute, h⟩ := bind_eq_ok.1 h
    obtain ⟨initial, hinitial, h⟩ := bind_eq_ok.1 h
    obtain ⟨factor, hfactor, h⟩ := bind_eq_ok.1 h
    obtain ⟨largest, hlargest, h⟩ := bind_eq_ok.1 h
    obtain ⟨rank, hrank, h⟩ := bind_eq_ok.1 h
    obtain rfl := pure_eq_ok.1 h
    exact ⟨hmethod, hbudget, number?_getD_eq_ok.1 hrelative, number?_getD_eq_ok.1 habsolute,
      number?_getD_eq_ok.1 hinitial, number?_getD_eq_ok.1 hfactor, number?_getD_eq_ok.1 hlargest,
      number?_getD_eq_ok.1 hrank⟩
  · intro h
    obtain ⟨hmethod, hbudget, h⟩ := h
    refine bind_eq_ok.2 ⟨_, hmethod, bind_eq_ok.2 ⟨_, hbudget, ?_⟩⟩
    refine bind_eq_ok.2 ⟨_, number?_getD_eq_ok.2 h.relativeTolerance, ?_⟩
    refine bind_eq_ok.2 ⟨_, number?_getD_eq_ok.2 h.absoluteTolerance, ?_⟩
    refine bind_eq_ok.2 ⟨_, number?_getD_eq_ok.2 h.initialLambda, ?_⟩
    refine bind_eq_ok.2 ⟨_, number?_getD_eq_ok.2 h.lambdaFactor, ?_⟩
    refine bind_eq_ok.2 ⟨_, number?_getD_eq_ok.2 h.maxLambda, ?_⟩
    exact bind_eq_ok.2 ⟨_, number?_getD_eq_ok.2 h.rankTolerance, rfl⟩

/-! ## 3. Streams -/

/-- A section of the first document of a stream. -/
def section? (docs : List Node) (part : String) : Option Node := docs.head?.bind (·.get? part)

/-- An entry of the first document of a stream. -/
def entryAt (docs : List Node) (part entry : String) : Option Node :=
  member? (section? docs part) entry

/-- The entries that are recognised, each by its section and its name. -/
def recognised : List (String × String) :=
  SigmaName.all.map (fun n => ("sigmas", n.text)) ++
    ["type", "max_iterations", "relative_tolerance", "absolute_tolerance", "initial_lambda",
      "lambda_factor", "max_lambda", "rank_tolerance"].map fun entry => ("optimizer", entry)

/-- Two streams have the same recognised entries. -/
def SameEntries (docs docs' : List Node) : Prop :=
  ∀ e ∈ recognised, entryAt docs e.1 e.2 = entryAt docs' e.1 e.2

/-- The standard deviations and the real parameters are taken from the entries of a stream. -/
structure NumbersTaken (docs : List Node) (s : Settings Float) : Prop where
  sigma (n : SigmaName) :
    Taken IsNumber (default.sigma n) (entryAt docs "sigmas" n.text) (s.sigma n)
  optimizer : s.optimizer.NumbersTaken (section? docs "optimizer") default.optimizer

/-- All settings are taken from the entries of a stream. -/
structure TakenFrom (docs : List Node) (s : Settings Float) : Prop extends NumbersTaken docs s where
  method : Taken Names (default (α := Float)).optimizer.method (entryAt docs "optimizer" "type")
    s.optimizer.method
  maxIterations : Taken Counts (default (α := Float)).optimizer.maxIterations
    (entryAt docs "optimizer" "max_iterations") s.optimizer.maxIterations

/-- All standard deviations are positive and finite. -/
def Positive (s : Settings Float) : Prop := ∀ n, 0 < s.sigma n ∧ (s.sigma n).isFinite = true

/-- The kind of optimizer is a text and the budget is an integer, where they are given. -/
structure WellTyped (docs : List Node) : Prop where
  type : Absent (entryAt docs "optimizer" "type") ∨
    ∃ content, entryAt docs "optimizer" "type" = some (.text content)
  maxIterations : Absent (entryAt docs "optimizer" "max_iterations") ∨
    ∃ i, entryAt docs "optimizer" "max_iterations" = some (.integer i)

/-- A stream is read as its first document, and as an empty one without any. -/
theorem ofDocuments_eq (docs : List Node) : ofDocuments docs = (do
    let s ← readSigmas (section? docs "sigmas") SigmaName.all default
    let optimizer ← readOptimizer (section? docs "optimizer") s.optimizer
    let s : Settings Float := { s with optimizer }
    s.check
    return s) := by
  cases docs with
  | nil =>
    have hsigma : 0 < (0.001 : Float) ∧ (0.001 : Float).isFinite = true := by decide +kernel
    have hcheck : (default : Settings Float).check = .ok () := checkSigmas_eq_ok.2 fun _ _ => hsigma
    show pure default = ((default : Settings Float).check >>= fun _ => pure default)
    rw [hcheck]
    rfl
  | cons doc docs => rfl

theorem ofDocuments_eq_ok {docs : List Node} {s : Settings Float} : ofDocuments docs = .ok s ↔
    readMethod (entryAt docs "optimizer" "type") (default (α := Float)).optimizer.method =
      .ok s.optimizer.method ∧
    readBudget (entryAt docs "optimizer" "max_iterations")
      (default (α := Float)).optimizer.maxIterations = .ok s.optimizer.maxIterations ∧
    s.NumbersTaken docs ∧ s.Positive := by
  have hnodup : SigmaName.all.Nodup := by decide
  rw [ofDocuments_eq]
  constructor
  · intro h
    obtain ⟨read, hread, h⟩ := bind_eq_ok.1 h
    obtain ⟨optimizer, hoptimizer, h⟩ := bind_eq_ok.1 h
    obtain ⟨hcheck, h⟩ := seq_eq_ok.1 h
    obtain rfl := pure_eq_ok.1 h
    obtain ⟨hbefore, hsigma⟩ := (readSigmas_eq_ok hnodup).1 hread
    rw [hbefore] at hoptimizer
    obtain ⟨hmethod, hbudget, hnumbers⟩ := readOptimizer_eq_ok.1 hoptimizer
    exact ⟨hmethod, hbudget, ⟨fun n => (hsigma n).1 n.mem_all, hnumbers⟩,
      fun n => checkSigmas_eq_ok.1 hcheck n n.mem_all⟩
  · intro h
    obtain ⟨hmethod, hbudget, hnumbers, hpositive⟩ := h
    have hread : readSigmas (section? docs "sigmas") SigmaName.all default =
        .ok { s with optimizer := default.optimizer } :=
      (readSigmas_eq_ok hnodup).2 ⟨rfl, fun n => ⟨fun _ => hnumbers.sigma n, fun hn =>
        absurd n.mem_all hn⟩⟩
    refine bind_eq_ok.2 ⟨_, hread, bind_eq_ok.2 ⟨s.optimizer,
      readOptimizer_eq_ok.2 ⟨hmethod, hbudget, hnumbers.optimizer⟩, ?_⟩⟩
    exact seq_eq_ok.2 ⟨checkSigmas_eq_ok.2 fun n _ => hpositive n, rfl⟩

/-- The standard deviations read depend on their entries only. -/
theorem readSigmas_congr {part part' : Option Node} : ∀ {ns : List SigmaName}
    {s : Settings Float}, (∀ n ∈ ns, member? part n.text = member? part' n.text) →
      readSigmas part ns s = readSigmas part' ns s
  | [], _, _ => rfl
  | n :: ns, s, h => by
    have hns := fun s : Settings Float =>
      readSigmas_congr (s := s) fun m hm => h m (List.mem_cons_of_mem n hm)
    simp only [readSigmas, h n List.mem_cons_self, hns]

theorem ofDocuments_congr {docs docs' : List Node} (h : SameEntries docs docs') :
    ofDocuments docs = ofDocuments docs' := by
  have hsigmas : ∀ n ∈ SigmaName.all, member? (section? docs "sigmas") n.text =
      member? (section? docs' "sigmas") n.text := fun n hn =>
    h ("sigmas", n.text) (List.mem_append_left _ (List.mem_map_of_mem hn))
  have hoptimizer : ∀ entry ∈ ["type", "max_iterations", "relative_tolerance",
      "absolute_tolerance", "initial_lambda", "lambda_factor", "max_lambda", "rank_tolerance"],
      member? (section? docs "optimizer") entry = member? (section? docs' "optimizer") entry :=
    fun entry hentry =>
      h ("optimizer", entry) (List.mem_append_right _ (List.mem_map_of_mem hentry))
  simp only [List.forall_mem_cons] at hoptimizer
  obtain ⟨htype, hbudget, hrelative, habsolute, hinitial, hfactor, hlargest, hrank, -⟩ :=
    hoptimizer
  simp only [ofDocuments_eq, readSigmas_congr hsigmas, readOptimizer, htype, hbudget, hrelative,
    habsolute, hinitial, hfactor, hlargest, hrank]

/-- **No recognised setting is dropped.** The settings of a stream have positive finite standard
deviations, and every number of theirs is the one of its entry, or the default if there is none.
They depend on nothing but the recognised entries of the first document. If these are well typed,
there are settings exactly if every entry that is present can be taken and all standard
deviations are positive and finite, and then the kind of optimizer and the budget are those of
their entries as well. -/
theorem ofDocuments_taken (docs : List Node) :
    (∀ s, ofDocuments docs = .ok s → s.NumbersTaken docs ∧ s.Positive) ∧
      (∀ docs', SameEntries docs docs' → ofDocuments docs' = ofDocuments docs) ∧
      (WellTyped docs → ∀ s, ofDocuments docs = .ok s ↔ s.TakenFrom docs ∧ s.Positive) := by
  refine ⟨fun s h => (ofDocuments_eq_ok.1 h).2.2, fun docs' h => (ofDocuments_congr h).symm,
    fun htyped s => ?_⟩
  rw [ofDocuments_eq_ok, readMethod_eq_ok htyped.type, readBudget_eq_ok htyped.maxIterations]
  constructor
  · intro h
    obtain ⟨hmethod, hbudget, hnumbers, hpositive⟩ := h
    exact ⟨⟨hnumbers, hmethod, hbudget⟩, hpositive⟩
  · intro h
    obtain ⟨htaken, hpositive⟩ := h
    exact ⟨htaken.method, htaken.maxIterations, htaken.toNumbersTaken, hpositive⟩

/-- A document with an unknown entry and one that is null. -/
def sampleStream : List Node :=
  [.mapping [
    (.text "sigmas".toList, .mapping [(.text "pose".toList, .real "0.01".toList),
      (.text "time".toList, .integer 2), (.text "unknown".toList, .real "5.0".toList),
      (.text "wrench".toList, .null)]),
    (.text "optimizer".toList, .mapping [
      (.text "type".toList, .text "levenberg_marquardt".toList),
      (.text "max_iterations".toList, .integer 7),
      (.text "relative_tolerance".toList, .real "0.5".toList)])]]

theorem ofDocuments_taken_sample :
    WellTyped sampleStream ∧ ∃ s, ofDocuments sampleStream = .ok s ∧ s.sigma .pose == 0.01 ∧
      s.sigma .time == 2 ∧ s.optimizer.maxIterations = 7 ∧ s.TakenFrom sampleStream := by
  have hrun : (ofDocuments sampleStream).toOption.map
      (fun s => (s.sigma .pose == 0.01, s.sigma .time == 2, s.optimizer.maxIterations)) =
        some (true, true, 7) := by
    decide +kernel
  obtain ⟨s, hs, hread⟩ := Option.map_eq_some_iff.1 hrun
  have h := toOption_eq_some_iff.1 hs
  have htyped : WellTyped sampleStream := ⟨.inr ⟨_, rfl⟩, .inr ⟨_, rfl⟩⟩
  obtain ⟨hpose, htime, hbudget⟩ := by simpa using hread
  have htaken := (((ofDocuments_taken sampleStream).2.2 htyped s).1 h).1
  exact ⟨htyped, s, h, hpose, htime, hbudget, htaken⟩

/-- A document whose only entry is a budget that is no integer. -/
def fractionalBudget : List Node :=
  [.mapping [(.text "optimizer".toList,
    .mapping [(.text "max_iterations".toList, .real "7.5".toList)])]]

/-- **A budget that is no integer is passed over.** The settings have the default budget, though the
entry is there and not null. -/
theorem ofDocuments_fractional_budget :
    ∃ s, ofDocuments fractionalBudget = .ok s ∧ s.optimizer.maxIterations = 100 ∧
      ¬ s.TakenFrom fractionalBudget := by
  have hrun : (ofDocuments fractionalBudget).toOption.map (·.optimizer.maxIterations) =
      some 100 := by decide +kernel
  obtain ⟨s, hs, hbudget⟩ := Option.map_eq_some_iff.1 hrun
  refine ⟨s, toOption_eq_some_iff.1 hs, hbudget, fun h => ?_⟩
  have hentry : entryAt fractionalBudget "optimizer" "max_iterations" =
      some (.real "7.5".toList) := rfl
  have htaken := h.maxIterations
  rw [hentry] at htaken
  generalize s.optimizer.maxIterations = k at htaken
  cases htaken with
  | absent habsent => cases habsent
  | given hcounts => cases hcounts

end Settings

end Articulated
