import VoxelFeatures.Plant.Scatter

/-!
# Plants of two cells

A tall plant takes two cells of air over soil. Its halves have the same block
id and variant, and one metadata bit marks the upper half. Of all placers this
one alone tells whether any trial succeeded.
-/

namespace VoxelFeatures

/-- A plant of two cells, by its variant of three bits. -/
structure TallPlant where
  variant : UInt8
  variant_lt : variant < 8
deriving DecidableEq

namespace TallPlant

def sunflower : UInt8 := 0
def lilac : UInt8 := 1
def grass : UInt8 := 2
def fern : UInt8 := 3
def roseBush : UInt8 := 4
def peony : UInt8 := 5

/-- The metadata bit that marks an upper half. -/
def upperBit : UInt8 := 8

/-- The named variants, in metadata order. -/
def variants : List UInt8 := [sunflower, lilac, grass, fern, roseBush, peony]

theorem low_bits_lt (v : UInt8) : v &&& 0x7 < 8 := by
  have h : (v &&& 0x7).toNat ≤ 7 := by
    rw [UInt8.toNat_and]
    exact Nat.and_le_right
  exact UInt8.lt_iff_toNat_lt.2 (Nat.lt_succ_of_le h)

/-- The plant whose variant is the low three bits of a byte. -/
def ofByte (v : UInt8) : TallPlant := ⟨v &&& 0x7, low_bits_lt v⟩

def lower (t : TallPlant) : Block := ⟨.doublePlant, t.variant⟩

def upper (t : TallPlant) : Block := ⟨.doublePlant, upperBit ||| t.variant⟩

/-- Whether both cells are air and the lower one stands on soil. -/
def fits (p : Pos) : Build Bool := do
  if ← Build.isAir p then
    if ← Build.isAir (p.up 1) then Build.isIn Patch.bushSoils (p.down 1) else return false
  else return false

/-- One trial. The upper half has to stay below the top layer. -/
def trial (t : TallPlant) (p : Pos) : Build Bool := do
  let q ← scatter p
  if q.y < 0 ∨ 254 ≤ q.y then return false
  if ← fits q then
    Build.place q t.lower
    Build.place (q.up 1) t.upper
    return true
  else return false

def build (t : TallPlant) (p : Pos) : Build Bool := Build.anyRepeated (t.trial p) 64

end TallPlant

end VoxelFeatures
