/-!
# The sine table and the floor of a number

Angles are read off a table of 65536 single-precision sines, one per step of a
full turn. The angle is scaled to table steps in single precision, truncated
and wrapped, so equal steps give equal sines; the cosine reads the same table a
quarter turn further on.

`floorWord` is the floor of a number as a word. Truncation clamps to the range
of the word, and a number that is not one counts as `0`.
-/

namespace VoxelFeatures

/-- The ratio of a circle to its diameter, to double precision. -/
def pi : Float := 3.141592653589793

namespace SineTable

/-- Table steps per radian, the single-precision number nearest `10430.378`. -/
def stepsPerRadian : Float32 := 10430.378

/-- The sine at table step `i` of a full turn of 65536. -/
def entry (i : Nat) : Float32 := (Float.sin (i.toFloat * pi * 2.0 / 65536.0)).toFloat32

/-- The entry of a step count, wrapped to one turn. -/
def read (i : Int32) : Float32 := entry (i &&& 0xFFFF).toInt.toNat

/-- The sine of an angle in radians. -/
def sin (x : Float32) : Float32 := read (x * stepsPerRadian).toInt32

/-- The cosine of an angle in radians. -/
def cos (x : Float32) : Float32 := read (x * stepsPerRadian + 16384.0).toInt32

end SineTable

/-- The floor of a number: its truncation, less one where that lies above it. -/
def floorWord (v : Float) : Int32 :=
  let i := v.toInt32
  if v < i.toFloat then i - 1 else i

end VoxelFeatures
