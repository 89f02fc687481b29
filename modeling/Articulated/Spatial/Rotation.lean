import Articulated.Spatial.Vector

/-!
# Rotations

A rotation of space is a unit quaternion: a scalar part and a vector part. Both a quaternion and
its negative turn space the same way, and `==` on rotations takes them as equal.

* `Rotation.ofVector` turns about a vector by its length, `Rotation.aboutAxis` about a unit axis
  by an angle.
* `Rotation.toVector` is the shortest rotation vector; its length lies in `[0, π]`.
* `Rotation.matrix` is the rotation matrix, and `Rotation.apply` turns a vector.
-/

namespace Articulated

variable {α : Type} [Scalar α]

/-- A rotation as a quaternion. -/
@[ext]
structure Rotation (α : Type) where
  scalar : α
  vector : Vec3 α

namespace Rotation

/-! ## 1. The group -/

/-- The rotation that moves nothing. -/
def identity : Rotation α := ⟨1, 0⟩

/-- The rotation back. -/
def inverse (r : Rotation α) : Rotation α := ⟨r.scalar, -r.vector⟩

/-- First the right rotation, then the left one. -/
def mul (p q : Rotation α) : Rotation α :=
  ⟨p.scalar * q.scalar - p.vector.dot q.vector,
    p.scalar • q.vector + q.scalar • p.vector + p.vector.cross q.vector⟩

instance : Mul (Rotation α) := ⟨mul⟩

instance : Neg (Rotation α) := ⟨fun r => ⟨-r.scalar, -r.vector⟩⟩

/-- Equality of rotations: the quaternions agree or are negatives of each other. -/
def sameTurn (p q : Rotation α) : Bool :=
  (p.scalar == q.scalar && p.vector == q.vector)
    || (p.scalar == -q.scalar && p.vector == -q.vector)

instance : BEq (Rotation α) := ⟨sameTurn⟩

/-! ## 2. Action on vectors -/

/-- The turned vector: with `t = 2 (v × x)`, it is `x + s t + v × t`. -/
def apply (r : Rotation α) (x : Vec3 α) : Vec3 α :=
  let c := r.vector.cross x
  let t := c + c
  r.scalar • t + r.vector.cross t + x

/-- The rotation matrix. -/
def matrix (r : Rotation α) : Mat3 α :=
  let w := r.scalar
  let x := r.vector.x
  let y := r.vector.y
  let z := r.vector.z
  let ww := w * w
  let xx := x * x
  let yy := y * y
  let zz := z * z
  let xy := x * y + x * y
  let wz := w * z + w * z
  let wy := w * y + w * y
  let xz := x * z + x * z
  let yz := y * z + y * z
  let wx := w * x + w * x
  ⟨⟨ww + xx - yy - zz, xy - wz, wy + xz⟩,
    ⟨wz + xy, ww - xx + yy - zz, yz - wx⟩,
    ⟨xz - wy, wx + yz, ww - xx - yy + zz⟩⟩

/-! ## 3. Rotation vectors -/

/-- The rotation about a unit axis by an angle. -/
def aboutAxis (axis : Vec3 α) (angle : α) : Rotation α :=
  let h := angle * Scalar.half
  ⟨Scalar.cos h, Scalar.sin h • axis⟩

/-- The rotation about `v` by the length of `v`. The zero vector gives the identity, and so does a
vector too short for its direction to be told. -/
def ofVector (v : Vec3 α) : Rotation α :=
  let u := (Scalar.half : α) • v
  if u.normSq ≤ Scalar.epsilon * Scalar.epsilon then identity
  else ⟨Scalar.cos u.norm, (Scalar.sin u.norm / u.norm) • u⟩

/-- The rotation vector of length at most `π`: the vector part, on the side where the scalar part
is not negative, stretched to the angle. A vector part without positive length has none. -/
def toVector (r : Rotation α) : Vec3 α :=
  let v := if 0 ≤ r.scalar then r.vector else -r.vector
  let q := v.normSq
  if 0 < q then
    let h := Scalar.atan2 (Scalar.sqrt q) (Scalar.abs r.scalar)
    (h + h) • v.divBy (Scalar.sqrt q)
  else 0

end Rotation

end Articulated
