import Articulated.Scalar

/-!
# Vectors and matrices of space

Vectors of three coordinates with 3 × 3 matrices, and vectors of six coordinates with 6 × 6
matrices.

* A spatial vector is a pair of an **angular** and a **linear** part, in this order; twists,
  accelerations and wrenches are such vectors.
* A spatial matrix is four 3 × 3 blocks, so that the block laws of rigid motion are visible in
  the definitions that use it.
* `SpatialVector.toList` and `SpatialVector.ofList` pass between the pair and its six
  coordinates in order.
-/

namespace Articulated

variable {α : Type} [Scalar α]

/-! ## 1. Three coordinates -/

/-- A vector of three coordinates. -/
@[ext]
structure Vec3 (α : Type) where
  x : α
  y : α
  z : α
deriving BEq

namespace Vec3

/-- The vector with all coordinates zero. -/
def zero : Vec3 α := ⟨0, 0, 0⟩

/-- The first basis vector. -/
def unitX : Vec3 α := ⟨1, 0, 0⟩

/-- The second basis vector. -/
def unitY : Vec3 α := ⟨0, 1, 0⟩

/-- The third basis vector. -/
def unitZ : Vec3 α := ⟨0, 0, 1⟩

instance : Zero (Vec3 α) := ⟨zero⟩
instance : Add (Vec3 α) := ⟨fun a b => ⟨a.x + b.x, a.y + b.y, a.z + b.z⟩⟩
instance : Sub (Vec3 α) := ⟨fun a b => ⟨a.x - b.x, a.y - b.y, a.z - b.z⟩⟩
instance : Neg (Vec3 α) := ⟨fun a => ⟨-a.x, -a.y, -a.z⟩⟩
instance : SMul α (Vec3 α) := ⟨fun c a => ⟨c * a.x, c * a.y, c * a.z⟩⟩

/-- Inner product. -/
def dot (a b : Vec3 α) : α := a.x * b.x + a.y * b.y + a.z * b.z

/-- Vector product. -/
def cross (a b : Vec3 α) : Vec3 α :=
  ⟨a.y * b.z - a.z * b.y, a.z * b.x - a.x * b.z, a.x * b.y - a.y * b.x⟩

/-- Squared length. -/
def normSq (a : Vec3 α) : α := a.dot a

/-- Length. -/
def norm (a : Vec3 α) : α := Scalar.sqrt a.normSq

/-- Division of every coordinate. -/
def divBy (a : Vec3 α) (c : α) : Vec3 α := ⟨a.x / c, a.y / c, a.z / c⟩

/-- The vector divided by its length; of the zero vector this is the quotient of zeros. -/
def normalize (a : Vec3 α) : Vec3 α := a.divBy a.norm

/-- The coordinates in order. -/
def toList (a : Vec3 α) : List α := [a.x, a.y, a.z]

end Vec3

/-! ## 2. Matrices of three rows -/

/-- A 3 × 3 matrix by rows. -/
@[ext]
structure Mat3 (α : Type) where
  row1 : Vec3 α
  row2 : Vec3 α
  row3 : Vec3 α
deriving BEq

namespace Mat3

/-- The zero matrix. -/
def zero : Mat3 α := ⟨0, 0, 0⟩

/-- The identity matrix. -/
def identity : Mat3 α := ⟨Vec3.unitX, Vec3.unitY, Vec3.unitZ⟩

/-- Rows and columns exchanged. -/
def transpose (m : Mat3 α) : Mat3 α :=
  ⟨⟨m.row1.x, m.row2.x, m.row3.x⟩, ⟨m.row1.y, m.row2.y, m.row3.y⟩,
    ⟨m.row1.z, m.row2.z, m.row3.z⟩⟩

/-- Matrix times vector. -/
def apply (m : Mat3 α) (v : Vec3 α) : Vec3 α := ⟨m.row1.dot v, m.row2.dot v, m.row3.dot v⟩

/-- Matrix product. -/
def mul (m n : Mat3 α) : Mat3 α :=
  let t := n.transpose
  ⟨t.apply m.row1, t.apply m.row2, t.apply m.row3⟩

instance : Zero (Mat3 α) := ⟨zero⟩
instance : Add (Mat3 α) := ⟨fun a b => ⟨a.row1 + b.row1, a.row2 + b.row2, a.row3 + b.row3⟩⟩
instance : SMul α (Mat3 α) := ⟨fun c a => ⟨c • a.row1, c • a.row2, c • a.row3⟩⟩
instance : Mul (Mat3 α) := ⟨mul⟩

/-- The matrix of the vector product with `v`: `(skew v).apply b = v.cross b`. -/
def skew (v : Vec3 α) : Mat3 α := ⟨⟨0, -v.z, v.y⟩, ⟨v.z, 0, -v.x⟩, ⟨-v.y, v.x, 0⟩⟩

/-- The diagonal entries. -/
def diagonal (m : Mat3 α) : Vec3 α := ⟨m.row1.x, m.row2.y, m.row3.z⟩

/-- The rows as lists. -/
def toRows (m : Mat3 α) : List (List α) := [m.row1.toList, m.row2.toList, m.row3.toList]

end Mat3

/-! ## 3. Six coordinates -/

/-- A spatial vector: the angular part first, then the linear part. -/
@[ext]
structure SpatialVector (α : Type) where
  angular : Vec3 α
  linear : Vec3 α
deriving BEq

namespace SpatialVector

/-- The spatial vector with all coordinates zero. -/
def zero : SpatialVector α := ⟨0, 0⟩

instance : Zero (SpatialVector α) := ⟨zero⟩
instance : Add (SpatialVector α) := ⟨fun a b => ⟨a.angular + b.angular, a.linear + b.linear⟩⟩
instance : Sub (SpatialVector α) := ⟨fun a b => ⟨a.angular - b.angular, a.linear - b.linear⟩⟩
instance : Neg (SpatialVector α) := ⟨fun a => ⟨-a.angular, -a.linear⟩⟩
instance : SMul α (SpatialVector α) := ⟨fun c a => ⟨c • a.angular, c • a.linear⟩⟩

/-- Inner product; of a twist and a wrench this is power. -/
def dot (a b : SpatialVector α) : α := a.angular.dot b.angular + a.linear.dot b.linear

/-- The six coordinates, angular part first. -/
def toList (a : SpatialVector α) : List α :=
  [a.angular.x, a.angular.y, a.angular.z, a.linear.x, a.linear.y, a.linear.z]

/-- The spatial vector with the given coordinates; missing ones are zero. -/
def ofList (v : List α) : SpatialVector α :=
  ⟨⟨v.getD 0 0, v.getD 1 0, v.getD 2 0⟩, ⟨v.getD 3 0, v.getD 4 0, v.getD 5 0⟩⟩

/-- Reading the six coordinates back gives the vector. -/
@[simp] theorem ofList_toList (a : SpatialVector α) : ofList a.toList = a := rfl

/-- A spatial vector has six coordinates. -/
@[simp] theorem length_toList {β : Type} (a : SpatialVector β) : a.toList.length = 6 := rfl

end SpatialVector

/-! ## 4. Spatial matrices -/

/-- A 6 × 6 matrix by its four blocks: the first index of a name is the row block, the second the
column block, `A` for angular and `L` for linear. -/
@[ext]
structure SpatialMatrix (α : Type) where
  blockAA : Mat3 α
  blockAL : Mat3 α
  blockLA : Mat3 α
  blockLL : Mat3 α

namespace SpatialMatrix

/-- The identity matrix. -/
def identity : SpatialMatrix α := ⟨Mat3.identity, 0, 0, Mat3.identity⟩

/-- Matrix times vector. -/
def apply (m : SpatialMatrix α) (v : SpatialVector α) : SpatialVector α :=
  ⟨m.blockAA.apply v.angular + m.blockAL.apply v.linear,
    m.blockLA.apply v.angular + m.blockLL.apply v.linear⟩

/-- Matrix product. -/
def mul (m n : SpatialMatrix α) : SpatialMatrix α :=
  ⟨m.blockAA * n.blockAA + m.blockAL * n.blockLA, m.blockAA * n.blockAL + m.blockAL * n.blockLL,
    m.blockLA * n.blockAA + m.blockLL * n.blockLA, m.blockLA * n.blockAL + m.blockLL * n.blockLL⟩

instance : Mul (SpatialMatrix α) := ⟨mul⟩

/-- Rows and columns exchanged. -/
def transpose (m : SpatialMatrix α) : SpatialMatrix α :=
  ⟨m.blockAA.transpose, m.blockLA.transpose, m.blockAL.transpose, m.blockLL.transpose⟩

/-- The six diagonal entries. -/
def diagonal (m : SpatialMatrix α) : SpatialVector α := ⟨m.blockAA.diagonal, m.blockLL.diagonal⟩

/-- The six rows as lists. -/
def toRows (m : SpatialMatrix α) : List (List α) :=
  List.zipWith (· ++ ·) m.blockAA.toRows m.blockAL.toRows
    ++ List.zipWith (· ++ ·) m.blockLA.toRows m.blockLL.toRows

end SpatialMatrix

end Articulated
