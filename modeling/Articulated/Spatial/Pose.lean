import Articulated.Spatial.Rotation

/-!
# Poses

A pose is a rigid motion: turn, then shift. The pose `aTb` carries coordinates in frame b to
coordinates in frame a, so that `aTb * bTc = aTc`.

The tangent coordinates of a pose are a spatial vector, rotation vector first. Moving a pose
along them multiplies on the right by `Pose.ofVector`, and `Pose.localTo` is the way back.
-/

namespace Articulated

variable {α : Type} [Scalar α]

/-- A rigid motion. -/
@[ext]
structure Pose (α : Type) where
  rotation : Rotation α
  translation : Vec3 α

namespace Pose

/-- The motion that moves nothing. -/
def identity : Pose α := ⟨Rotation.identity, 0⟩

/-- First the right motion, then the left one. -/
def mul (a b : Pose α) : Pose α :=
  ⟨a.rotation * b.rotation, a.translation + a.rotation.apply b.translation⟩

instance : Mul (Pose α) := ⟨mul⟩

/-- The motion back. -/
def inverse (a : Pose α) : Pose α :=
  ⟨a.rotation.inverse, a.rotation.inverse.apply (-a.translation)⟩

instance : BEq (Pose α) :=
  ⟨fun a b => a.translation == b.translation && a.rotation == b.rotation⟩

/-- A shift without a turn. -/
def shift (t : Vec3 α) : Pose α := ⟨Rotation.identity, t⟩

/-- The motion with the given rotation vector and translation. -/
def ofVector (v : SpatialVector α) : Pose α := ⟨Rotation.ofVector v.angular, v.linear⟩

/-- The rotation vector and translation of `b` seen from `a`. -/
def localTo (a b : Pose α) : SpatialVector α :=
  let relative := a.inverse * b
  ⟨relative.rotation.toVector, relative.translation⟩

end Pose

end Articulated
