import Articulated.Proofs.Assembly.Coverage
import Articulated.Proofs.Factor.Shapes
import Articulated.Robot.Model

/-!
# Assembly is safe

A robot is checked once, when it is made of its parts. After that no builder breaks off on it as
long as the times fit the keys: every joint finds its links, and every quantity has a key. The
factors that come out are regular, so nothing breaks off when they are whitened, differentiated or
stacked either, at any assignment.

* `Robot.ofParts_eq_ok`: the robots that are accepted.
* `Robot.ofParts_safe`: what may be done with them.
-/

namespace Articulated

/-! ## 1. Accepted robots -/

/-- The parts are accepted exactly if they make a valid robot, and it has these parts. -/
theorem Robot.ofParts_eq_ok {α : Type} {links : List (Link α)} {joints : List (Joint α)}
    {r : Robot α} : ofParts links joints = .ok r ↔
      (⟨links, joints⟩ : Robot α).Valid ∧ r = ⟨links, joints⟩ := by
  unfold ofParts
  rw [seq_eq_ok, check_eq_ok_iff, pure_eq_ok]
  exact and_congr_right fun _ => eq_comm

/-! ## 2. Sound graphs -/

namespace Builder

variable {α : Type} [Scalar α] [Runtime α]

/-- A graph whose factors read quantities of some kind is sound. -/
theorem sound_of_within {g : FactorGraph α} {p : Variable → Prop}
    (h : ∀ f ∈ g.factors, f.Within p) : g.Sound :=
  FactorGraph.sound_of_regular fun f hf => (h f hf).regular

/-- A graph that is assembled whenever a time fits, from factors that read quantities. -/
theorem answers_sound {q : Prop} {x : Except (Fault α) (FactorGraph α)} {p : Variable → Prop}
    (hkeys : NeedsKeys q x) (hq : q) (hwithin : ∀ g, x = .ok g → ∀ f ∈ g.factors, f.Within p) :
    Answers FactorGraph.Sound x := by
  obtain ⟨g, hg⟩ := hkeys.succeeds hq
  exact ⟨g, hg, sound_of_within (hwithin g hg)⟩

end Builder

open Builder

/-- **Assembly is safe.** Parts are accepted exactly if link ids are unique and fit the keys, joint
ids are unique and fit the keys, and every joint connects two different links among the parts
(`Robot.Valid`). For an accepted robot every builder assembles all groups of factors and the whole
slice at every time that fits the keys, and every trajectory whose end fits. In the graphs it
assembles, a factor that evaluates at an assignment has as many rows as standard deviations, and
derivatives with a block for each of its variables, of that many rows and a column for every tangent
coordinate of the variable; so whitening and stacking never break off (`FactorGraph.Sound`). -/
theorem Robot.ofParts_safe {α : Type} [Scalar α] [Runtime α] (links : List (Link α))
    (joints : List (Joint α)) :
    ((∃ r, ofParts links joints = .ok r) ↔ (⟨links, joints⟩ : Robot α).Valid) ∧
    ∀ r, ofParts links joints = .ok r → r = ⟨links, joints⟩ ∧
      ∀ (b : Builder α) (gravity : Vec3 α) (planar : Option (Vec3 α)),
        (∀ t ≤ maxIndex,
          Answers FactorGraph.Sound (b.poseFactors r t) ∧
          Answers FactorGraph.Sound (b.twistFactors r t) ∧
          Answers FactorGraph.Sound (b.accelFactors r t) ∧
          Answers FactorGraph.Sound (b.dynamicsFactors r t gravity planar) ∧
          Answers FactorGraph.Sound (b.slice r t gravity planar)) ∧
        ∀ numSteps ≤ maxIndex, ∀ dt scheme,
          Answers FactorGraph.Sound (b.trajectory r numSteps dt scheme gravity planar) := by
  refine ⟨⟨?_, fun hvalid => ⟨_, ofParts_eq_ok.2 ⟨hvalid, rfl⟩⟩⟩, fun r hr => ?_⟩
  · rintro ⟨r, hr⟩
    exact (ofParts_eq_ok.1 hr).1
  · obtain ⟨hvalid, rfl⟩ := ofParts_eq_ok.1 hr
    refine ⟨rfl, fun b gravity planar => ⟨fun t ht => ⟨?_, ?_, ?_, ?_, ?_⟩,
      fun numSteps hle dt scheme => ?_⟩⟩
    · exact answers_sound (poseFactors_needsKeys hvalid) ht fun g => poseFactors_within hvalid
    · exact answers_sound (twistFactors_needsKeys hvalid) ht fun g => twistFactors_within hvalid
    · exact answers_sound (accelFactors_needsKeys hvalid) ht fun g => accelFactors_within hvalid
    · exact answers_sound (dynamicsFactors_needsKeys hvalid gravity planar) ht fun g =>
        dynamicsFactors_within
    · exact answers_sound (slice_needsKeys hvalid gravity planar) ht fun g => slice_within hvalid
    · obtain ⟨g, hg⟩ := trajectory_succeeds_of_le hvalid hle dt
      exact ⟨g, hg, sound_of_within (trajectory_within hvalid hg)⟩

/-- The arm, over as many steps as there are times. -/
theorem Robot.ofParts_safe_twoLinkArm :
    let r : Robot Float := .twoLinkArm
    ofParts r.links r.joints = .ok r ∧ maxIndex ≤ maxIndex ∧
      Answers FactorGraph.Sound ((ofSettings .default).slice r maxIndex 0 none) ∧
      Answers FactorGraph.Sound ((ofSettings .default).trajectory r maxIndex 1 .euler 0 none) := by
  intro r
  have hr : ofParts r.links r.joints = .ok r := rfl
  have hle : maxIndex ≤ maxIndex := Nat.le_refl _
  obtain ⟨-, hsafe⟩ := (ofParts_safe r.links r.joints).2 r hr
  obtain ⟨hslices, htrajectories⟩ := hsafe (ofSettings .default) 0 none
  exact ⟨hr, hle, (hslices _ hle).2.2.2.2, htrajectories _ hle 1 .euler⟩

end Articulated
