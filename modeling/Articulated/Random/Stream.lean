/-!
# A seeded stream of random words

The stream is the key stream of the ChaCha cipher with twelve rounds, a 64-bit block counter from
zero and stream number zero. Its key is drawn from a 64-bit seed by a linear congruential
generator whose states are permuted on output.

* `Stream.ofSeed` starts a stream, `Stream.word` takes the next 32 bits and `Stream.word64` the
  next 64, the low half first.
* `Stream.between` draws a double from a closed interval.
-/

namespace Articulated.Random

/-! ## 1. The key -/

/-- The next state of the congruential generator. -/
def advance (state : UInt64) : UInt64 := state * 6364136223846793005 + 11634580027462260723

/-- The rotation of a word to the right. -/
def rotateRight (x : UInt32) (n : UInt32) : UInt32 := (x >>> (n % 32)) ||| (x <<< ((32 - n) % 32))

/-- The output for a state: its high bits folded together and rotated by its top bits. -/
def permute (state : UInt64) : UInt32 :=
  rotateRight (((state >>> 18) ^^^ state) >>> 27).toUInt32 (state >>> 59).toUInt32

/-- The words of a key from a state on. -/
def keyWords : Nat → UInt64 → List UInt32
  | 0, _ => []
  | n + 1, state =>
    let state := advance state
    permute state :: keyWords n state

/-! ## 2. Blocks -/

/-- The rotation of a word to the left. -/
def rotateLeft (x : UInt32) (n : UInt32) : UInt32 := rotateRight x (32 - n)

/-- The quarter round on four words of a block. -/
def quarterRound (s : Array UInt32) (a b c d : Nat) : Array UInt32 :=
  let get (i : Nat) : UInt32 := s.getD i 0
  let xa := get a + get b
  let xd := rotateLeft (get d ^^^ xa) 16
  let xc := get c + xd
  let xb := rotateLeft (get b ^^^ xc) 12
  let xa := xa + xb
  let xd := rotateLeft (xd ^^^ xa) 8
  let xc := xc + xd
  let xb := rotateLeft (xb ^^^ xc) 7
  (((s.setIfInBounds a xa).setIfInBounds b xb).setIfInBounds c xc).setIfInBounds d xd

/-- Two rounds: the columns of the block, then its diagonals. -/
def doubleRound (s : Array UInt32) : Array UInt32 :=
  [(0, 4, 8, 12), (1, 5, 9, 13), (2, 6, 10, 14), (3, 7, 11, 15),
    (0, 5, 10, 15), (1, 6, 11, 12), (2, 7, 8, 13), (3, 4, 9, 14)].foldl
    (fun s q => quarterRound s q.1 q.2.1 q.2.2.1 q.2.2.2) s

/-- The constants at the head of a block. -/
def headWords : List UInt32 := [0x61707865, 0x3320646e, 0x79622d32, 0x6b206574]

/-- The words of the block with a number: twelve rounds, added to what they began with. -/
def block (key : List UInt32) (number : Nat) : List UInt32 :=
  let first := headWords ++ key
    ++ [UInt32.ofNat number, UInt32.ofNat (number / 0x100000000), 0, 0]
  let last := (List.range 6).foldl (fun s _ => doubleRound s) first.toArray
  List.zipWith (· + ·) first last.toList

/-! ## 3. The stream -/

/-- A place in a stream: the words of the current block that are not taken yet, and the number of
the next block. -/
structure Stream where
  key : List UInt32
  rest : List UInt32
  next : Nat

namespace Stream

/-- The stream of a seed. -/
def ofSeed (seed : UInt64) : Stream := ⟨keyWords 8 seed, [], 0⟩

/-- Takes the next 32 bits. -/
def word (s : Stream) : UInt32 × Stream :=
  match s.rest with
  | w :: rest => (w, { s with rest })
  | [] =>
    match block s.key s.next with
    | w :: rest => (w, ⟨s.key, rest, s.next + 1⟩)
    | [] => (0, s)

/-- Takes the next 64 bits, the low half first. -/
def word64 (s : Stream) : UInt64 × Stream :=
  let (low, s) := s.word
  let (high, s) := s.word
  (low.toUInt64 ||| (high.toUInt64 <<< 32), s)

/-- Two to the power of minus fifty-two. -/
def unit : Float := 1 / 4503599627370496

/-- The double below a positive one. -/
def floatBelow (x : Float) : Float := Float.ofBits (x.toBits - 1)

/-- Lowers a scale until the largest draw stays inside the interval. -/
def fitScale (low high : Float) : Nat → Float → Float
  | 0, scale => scale
  | n + 1, scale =>
    if high < scale * (1 - unit) + low then fitScale low high n (floatBelow scale) else scale

/-- The length of an interval for the largest fraction that can be drawn. -/
def fullScale (low high : Float) : Float := (high - low) / (1 - unit)

/-- Draws a double from a closed interval: fifty-two random bits are a fraction of its length. -/
def between (s : Stream) (low high : Float) : Float × Stream :=
  let scale := fitScale low high 64 (fullScale low high)
  let (bits, s) := s.word64
  ((bits >>> 12).toFloat * unit * scale + low, s)

end Stream

end Articulated.Random
