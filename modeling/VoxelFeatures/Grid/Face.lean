import VoxelFeatures.Grid.Pos

/-!
# Faces of a cell

The six faces, the neighbour across each, and the vine bit of each horizontal
face. The orders of `all` and `horizontal` are part of the library: features
visit neighbours in these orders, and draw a face by its index.
-/

namespace VoxelFeatures

inductive Face where
  | negY
  | posY
  | negZ
  | posZ
  | negX
  | posX
deriving DecidableEq, Repr, Inhabited

namespace Face

/-- All faces, in index order. -/
def all : List Face := [negY, posY, negZ, posZ, negX, posX]

/-- The faces with a horizontal neighbour. -/
def horizontal : List Face := [negZ, posZ, negX, posX]

def index (f : Face) : Nat := all.idxOf f

/-- The place of a face among the horizontal ones. -/
def horizontalIndex? (f : Face) : Option Nat := horizontal.idxOf? f

/-- The sign of the direction and its axis. -/
def name : Face → String
  | negY => "NegY"
  | posY => "PosY"
  | negZ => "NegZ"
  | posZ => "PosZ"
  | negX => "NegX"
  | posX => "PosX"

def isVertical : Face → Bool
  | negY | posY => true
  | _ => false

def opposite : Face → Face
  | negY => posY
  | posY => negY
  | negZ => posZ
  | posZ => negZ
  | negX => posX
  | posX => negX

/-- The unit offset through a face. -/
def delta : Face → Pos
  | negY => ⟨0, -1, 0⟩
  | posY => ⟨0, 1, 0⟩
  | negZ => ⟨0, 0, -1⟩
  | posZ => ⟨0, 0, 1⟩
  | negX => ⟨-1, 0, 0⟩
  | posX => ⟨1, 0, 0⟩

/-- The metadata bit of a vine that hangs on a face. Vines do not hang on
vertical faces. -/
def vineBit : Face → UInt8
  | negZ => 1
  | posX => 2
  | posZ => 4
  | negX => 8
  | negY | posY => 0

/-- The horizontal face of a drawn index. -/
def ofHorizontal (i : Int32) : Face := horizontal.getD i.toInt.toNat negZ

theorem opposite_opposite (f : Face) : f.opposite.opposite = f := by
  cases f <;> rfl

theorem delta_add_opposite (f : Face) : f.delta + f.opposite.delta = ⟨0, 0, 0⟩ := by
  cases f <;> rfl

end Face

/-- The cell `n` steps away through a face. -/
def Pos.offset (p : Pos) (f : Face) (n : Int32) : Pos := p + f.delta.scale n

/-- One step through a face and one back. -/
theorem Pos.offset_opposite (p : Pos) (f : Face) : (p.offset f 1).offset f.opposite 1 = p := by
  obtain ⟨x, y, z⟩ := p
  have hadd (p q : Pos) : p + q = ⟨p.x + q.x, p.y + q.y, p.z + q.z⟩ := rfl
  cases f <;>
    simp [offset, Face.opposite, Face.delta, scale, hadd, Int32.add_assoc]

theorem Pos.inHeight_offset {p : Pos} {f : Face} (hf : f ∈ Face.horizontal) :
    (p.offset f 1).inHeight = p.inHeight := by
  cases f with
  | negY | posY => exact absurd hf (by decide)
  | negZ | posZ | negX | posX => simp [offset, Face.delta, scale, inHeight]

end VoxelFeatures
