/-!
# The random stream

Every feature draws from one stream: a 48-bit state advanced by one linear
congruential step per draw. `step` is the only map on states, so counting
advances and comparing streams are facts about its iterates. A draw reads the
high bits of the state *after* its step, and the draw functions return the
value together with the advanced stream.

A bounded draw rejects the values of the last, incomplete block of `bound`
values, so that every result is equally likely. The number of rejected draws
has no bound in the code; `firstFitting` searches at most one full period of
the state, after which the states repeat.
-/

namespace VoxelFeatures

/-- A random stream is its 48-bit state. -/
structure Stream where
  state : BitVec 48
deriving DecidableEq, Repr, Inhabited

namespace Stream

/-- The factor of the congruential step, also mixed into every seed. -/
def multiplier : BitVec 48 := 0x5DEECE66D

/-- The term of the congruential step. -/
def increment : BitVec 48 := 0xB

/-- The number of states. -/
def period : Nat := 281474976710656

/-- The stream of a seed. Only the low 48 bits of the seed are kept. -/
def ofSeed (seed : Int64) : Stream := ⟨seed.toBitVec.setWidth 48 ^^^ multiplier⟩

/-- One advance of the state. -/
def step (s : Stream) : Stream := ⟨s.state * multiplier + increment⟩

/-- The `n` high bits of the state as a signed word; with `n = 32` the highest
of them is the sign. -/
def top (n : Nat) (s : Stream) : Int32 := .ofBitVec ((s.state >>> (48 - n)).setWidth 32)

/-- Advances once and reads the `n` high bits. -/
def bits (n : Nat) (s : Stream) : Int32 × Stream := (s.step.top n, s.step)

/-- A draw of 32 bits. -/
def int (s : Stream) : Int32 × Stream := s.bits 32

/-- Whether a 31-bit draw `u` lies in a complete block of `bound` values. The
last value of the block of `u` is beyond the word exactly when the block is cut
off by the end of the draws, and then the wrapped sum is negative. -/
def fits (bound u : Int32) : Bool := 0 ≤ u - u % bound + (bound - 1)

/-- The first of the next `fuel` draws that lies in a complete block, reduced
to its place in the block. -/
def firstFitting (bound : Int32) : Nat → Stream → Option (Int32 × Stream)
  | 0, _ => none
  | fuel + 1, s =>
      let u := s.step.top 31
      if fits bound u then some (u % bound, s.step) else firstFitting bound fuel s.step

/-- The low bits that a 31-bit draw scales to when `bound` is a power of two. -/
def scaled (bound u : Int32) : Int32 := ((bound.toInt64 * u.toInt64) >>> 31).toInt32

/-- A draw in `0 ≤ r < bound`. A bound that is not positive gives `0` and does
not advance the stream. -/
def bounded (bound : Int32) (s : Stream) : Int32 × Stream :=
  if bound ≤ 0 then (0, s)
  else if bound &&& -bound = bound then (scaled bound (s.step.top 31), s.step)
  else (firstFitting bound period s).getD (0, s)

/-- A draw in `first ≤ r ≤ last`, whose numbers the word `last - first + 1` counts.
Where the count is not positive, as for a range of `2 ^ 31` numbers or more, the
result is `first` without a draw. So it is for an empty range, unless its ends are
more than `2 ^ 31 + 1` apart: then the count has wrapped, and a draw is made. -/
def range (first last : Int32) (s : Stream) : Int32 × Stream :=
  let (r, s) := s.bounded (last - first + 1)
  (first + r, s)

/-- Two draws of 32 bits, the first one in the high half. -/
def long (s : Stream) : Int64 × Stream :=
  let (high, s) := s.int
  let (low, s) := s.int
  ((high.toInt64 <<< 32) + low.toInt64, s)

/-- A draw of one bit. -/
def coin (s : Stream) : Bool × Stream :=
  let (u, s) := s.bits 1
  (u != 0, s)

/-- The number in `[0, 1)` that a 24-bit draw stands for. -/
def unitSingle (u : Int32) : Float32 := u.toFloat32 / 16777216.0

/-- The number in `[0, 1)` that draws of 26 and 27 bits stand for together. -/
def unitDouble (high low : Int32) : Float :=
  ((high.toInt64 <<< 27) + low.toInt64).toFloat / 9007199254740992.0

/-- A single-precision number in `[0, 1)`. -/
def single (s : Stream) : Float32 × Stream :=
  let (u, s) := s.bits 24
  (unitSingle u, s)

/-- A double-precision number in `[0, 1)`. -/
def double (s : Stream) : Float × Stream :=
  let (high, s) := s.bits 26
  let (low, s) := s.bits 27
  (unitDouble high low, s)

/-- The stream seeded by a 32-bit draw. -/
def ofDraw (u : Int32) : Stream := ofSeed u.toInt64

/-- Forks a child stream off the next draw. -/
def child (s : Stream) : Stream × Stream :=
  let (u, s) := s.int
  (ofDraw u, s)

@[simp] theorem bits_fst (n : Nat) (s : Stream) : (s.bits n).1 = s.step.top n := rfl

@[simp] theorem bits_snd (n : Nat) (s : Stream) : (s.bits n).2 = s.step := rfl

@[simp] theorem firstFitting_zero (bound : Int32) (s : Stream) :
    firstFitting bound 0 s = none := rfl

theorem firstFitting_succ (bound : Int32) (fuel : Nat) (s : Stream) :
    firstFitting bound (fuel + 1) s =
      if fits bound (s.step.top 31) then some (s.step.top 31 % bound, s.step)
      else firstFitting bound fuel s.step := rfl

theorem bounded_of_not_pos {bound : Int32} (h : bound ≤ 0) (s : Stream) :
    s.bounded bound = (0, s) := by
  simp [bounded, h]

end Stream

end VoxelFeatures
